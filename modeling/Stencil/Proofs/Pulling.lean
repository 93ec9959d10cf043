/-
Pulling a lexer in all the ways there are, in any order.  Whether spans are
completed one by one or the lexer is pulled as a sequence that ends, whether it
is reset or a copy of it is drained: the answers are read off one sequence, the
entries of the source, which the end of input continues for ever.
-/
import Stencil.Proofs.Tiling

namespace Stencil

/-- The end of input as an entry: an empty span at the end of the source. -/
def endOfInput (source : String) : Lexeme where
  token := .eof
  span := ⟨(utf8 source).length, (utf8 source).length⟩
  line := 1 + lineBreaks source
  text := ""
  nextChar := none

/-- The entries of a source: what a drain of it gives, and then the end of
input for ever. -/
def entryAt (source : String) (place : Nat) : Lexeme :=
  (Lexer.ofSource source).drain.getD place (endOfInput source)

/-- A way of pulling a lexer. -/
inductive Pull where
  /-- Complete a span, also after the end of input. -/
  | next
  /-- Complete a span, but none after the end of input. -/
  | next?
  /-- Drain a copy of the lexer. -/
  | drainCopy
  /-- Go back to the start of the source. -/
  | reset
  deriving DecidableEq, Repr

/-- The entries that a pull gives, and the lexer after it. -/
def Lexer.pull (lexer : Lexer) : Pull → List Lexeme × Lexer
  | .next => ([lexer.next.2.lexeme lexer.next.1], lexer.next.2)
  | .next? =>
      match lexer.next? with
      | none => ([], lexer)
      | some (token, later) => ([later.lexeme token], later)
  | .drainCopy => (lexer.drain, lexer)
  | .reset => ([], lexer.reset)

/-- A pull and the entries that it gave. -/
structure Answered where
  pull : Pull
  entries : List Lexeme
  deriving DecidableEq, Repr

/-- The entries given since the last reset, in order.  The latest pull stands
first in a history; what a copy gave does not count. -/
def given : List Answered → List Lexeme
  | [] => []
  | ⟨.reset, _⟩ :: _ => []
  | ⟨.drainCopy, _⟩ :: earlier => given earlier
  | ⟨.next, entries⟩ :: earlier => given earlier ++ entries
  | ⟨.next?, entries⟩ :: earlier => given earlier ++ entries

/-- Whether the sequence that ends has given the end of input since the last
reset. -/
def ended : List Answered → Bool
  | [] => false
  | ⟨.reset, _⟩ :: _ => false
  | ⟨.next?, entries⟩ :: earlier =>
      ended earlier || entries.any (·.token == .eof)
  | ⟨.next, _⟩ :: earlier => ended earlier
  | ⟨.drainCopy, _⟩ :: earlier => ended earlier

/-- A lexer, and what the pulls on it have given; the latest stands first. -/
structure Reading where
  lexer : Lexer
  history : List Answered

def Reading.after (reading : Reading) (pull : Pull) : Reading where
  lexer := (reading.lexer.pull pull).2
  history := ⟨pull, (reading.lexer.pull pull).1⟩ :: reading.history

/-- Pull a fresh lexer over a source, time and again. -/
def Reading.ofPulls (source : String) (pulls : List Pull) : Reading :=
  pulls.foldl Reading.after ⟨.ofSource source, []⟩

/-- A lexer that gives the entries of a sequence when spans are completed one
by one. -/
def Lexer.Gives (lexer : Lexer) (entries : Nat → Lexeme) : Prop :=
  ∀ count, lexer.pulls count = (List.range count).map entries

variable {lexer : Lexer} {entries : Nat → Lexeme}

theorem Lexer.Gives.head (hgives : lexer.Gives entries) :
    lexer.next.2.lexeme lexer.next.1 = entries 0 := by
  have hone := hgives 1
  rw [pulls, pulls, List.range_one, List.map_singleton, List.cons.injEq] at hone
  exact hone.1

theorem Lexer.Gives.tail (hgives : lexer.Gives entries) :
    lexer.next.2.Gives (fun place => entries (place + 1)) := by
  intro count
  have hmore := hgives (count + 1)
  rw [pulls, List.range_succ_eq_map, List.map_cons, List.map_map,
    List.cons.injEq] at hmore
  exact hmore.2

/-- The flag of the sequence that ends has no part in completing spans. -/
theorem Lexer.Gives.exhaust (hgives : lexer.Gives entries)
    (exhausted : Bool) :
    ({ lexer with exhausted := exhausted } : Lexer).Gives entries := by
  have hpulls : ∀ (count : Nat) (lexer : Lexer),
      ({ lexer with exhausted := exhausted } : Lexer).pulls count =
        lexer.pulls count := by
    intro count
    induction count with
    | zero => exact fun _ => rfl
    | succ count ih => exact fun lexer => congrArg _ (ih lexer.next.2)
  intro count
  rw [hpulls]
  exact hgives count

/-- A lexer that has reached the end of its source has only the end of input
to give. -/
theorem Lexer.At.drain_eof {before : List Char} (hat : lexer.At before [])
    (hopen : lexer.exhausted = false) (hmode : lexer.state.mode = .eof) :
    lexer.drain = [endOfInput lexer.source] := by
  have hsource := hat.source
  rw [List.append_nil] at hsource
  rw [hat.drain hopen, ScanState.pieces_eq, if_pos hmode, hmode]
  simp [layOut, Piece.lexeme, endOfInput, ScanState.cut, length_utf8, hsource,
    lineBreaks, byteWidth]

/-- Completing spans one by one gives what a drain gives, and then the end of
input for ever. -/
theorem Lexer.At.gives {before ahead : List Char}
    (hat : lexer.At before ahead) (hopen : lexer.exhausted = false)
    (hend : lexer.state.mode = .eof → ahead = []) :
    lexer.Gives fun place =>
      lexer.drain.getD place (endOfInput lexer.source) := by
  intro count
  induction count generalizing lexer before ahead with
  | zero => rfl
  | succ count ih =>
      obtain ⟨_, hstate, hlater⟩ := hat.next
      have hends : lexer.next.2.state.mode = .eof →
          (lexer.state.cut ahead).rest = [] := by
        rw [hstate]
        exact ScanState.cut_rest_of_eof
      rw [pulls, ih hlater hopen hends, List.range_succ_eq_map, List.map_cons,
        List.map_map, drain_eq hopen]
      refine List.cons_eq_cons.mpr ⟨rfl, List.map_congr_left fun place _ => ?_⟩
      by_cases heof : lexer.next.1 = .eof
      · rw [next_token] at heof
        have hnow := hend heof
        subst hnow
        have hlast := hlater.drain_eof hopen (by rw [hstate]; rfl)
        rw [hlast, next_token, if_pos heof]
        cases place <;> rfl
      · simp [heof]
        rfl

theorem Lexer.gives_ofSource (source : String) :
    (ofSource source).Gives (entryAt source) :=
  (at_ofSource source).gives rfl fun heof => by cases heof

/-- A drain ends with the first end of input. -/
theorem Lexer.drain_ends (lexer : Lexer) (hopen : lexer.exhausted = false) :
    ∃ earlier last, lexer.drain = earlier ++ [last] ∧ last.token = .eof ∧
      ∀ lexeme ∈ earlier, lexeme.token ≠ .eof := by
  rw [drain_eq hopen]
  by_cases heof : lexer.next.1 = .eof
  · rw [if_pos heof]
    exact ⟨[], _, rfl, heof, fun _ hmem => absurd hmem List.not_mem_nil⟩
  · rw [if_neg heof]
    have := lexer.next_remaining_lt heof
    obtain ⟨earlier, last, hdrain, hlast, hmore⟩ :=
      drain_ends lexer.next.2 hopen
    refine ⟨lexer.next.2.lexeme lexer.next.1 :: earlier, last, ?_, hlast, ?_⟩
    · rw [hdrain, List.cons_append]
    · exact List.forall_mem_cons.mpr ⟨heof, hmore⟩
termination_by lexer.remaining

/-- Entries from the first on, up to the first end of input and with it. -/
def UpToEnd (entries : Nat → Lexeme) (list : List Lexeme) : Prop :=
  ∃ count, list = (List.range (count + 1)).map entries ∧
    (entries count).token = .eof ∧
    ∀ place < count, (entries place).token ≠ .eof

/-- Draining gives what completing spans one by one gives, up to the end. -/
theorem Lexer.Gives.drain (hgives : lexer.Gives entries)
    (hopen : lexer.exhausted = false) : UpToEnd entries lexer.drain := by
  obtain ⟨earlier, last, hdrain, hlast, hmore⟩ := lexer.drain_ends hopen
  have hpulls := pulls_drain hopen
  rw [hgives, hdrain, List.length_append, List.length_singleton,
    List.range_succ, List.map_append, List.map_singleton] at hpulls
  obtain ⟨hearlier, hend⟩ := List.append_inj' hpulls rfl
  refine ⟨earlier.length, ?_, ?_, ?_⟩
  · rw [hdrain, List.range_succ, List.map_append, List.map_singleton, hpulls]
  · rw [List.singleton_inj.mp hend]
    exact hlast
  · intro place hplace
    apply hmore
    rw [← hearlier]
    exact List.mem_map_of_mem (List.mem_range.mpr hplace)

/-- The number of entries given since the last reset. -/
def Reading.place (reading : Reading) : Nat := (given reading.history).length

/-- What a lexer has given since the last reset and what it still gives are one
sequence, and it is exhausted where the end of input has been given. -/
structure Reading.Sound (source : String) (reading : Reading) : Prop where
  reads : reading.lexer.source = source
  given : given reading.history =
    (List.range reading.place).map (entryAt source)
  gives : reading.lexer.Gives
    fun place => entryAt source (reading.place + place)
  exhausted : reading.lexer.exhausted = ended reading.history

section

variable {source : String} {reading later : Reading}

theorem Reading.Sound.fresh {history : List Answered}
    (hgiven : Stencil.given history = []) (hended : ended history = false) :
    Reading.Sound source ⟨.ofSource source, history⟩ := by
  have hplace : Reading.place ⟨.ofSource source, history⟩ = 0 := by
    rw [Reading.place, hgiven, List.length_nil]
  refine ⟨rfl, by rw [hplace, hgiven]; rfl, ?_, hended.symm⟩
  simp only [hplace, Nat.zero_add]
  exact Lexer.gives_ofSource source

/-- A pull that gives no entry leaves the lexer where it is. -/
theorem Reading.Sound.stay (hsound : reading.Sound source)
    (hlexer : later.lexer = reading.lexer)
    (hgiven : Stencil.given later.history = Stencil.given reading.history)
    (hended : ended later.history = ended reading.history) :
    later.Sound source := by
  have hplace : later.place = reading.place := congrArg List.length hgiven
  refine ⟨hlexer ▸ hsound.reads, ?_, ?_, ?_⟩
  · rw [hplace, hgiven, hsound.given]
  · rw [hplace, hlexer]
    exact hsound.gives
  · rw [hlexer, hended]
    exact hsound.exhausted

/-- A pull that gives the next entry moves on by one. -/
theorem Reading.Sound.move (hsound : reading.Sound source)
    (hlexer : ∃ exhausted, later.lexer =
      { reading.lexer.next.2 with exhausted := exhausted })
    (hgiven : Stencil.given later.history = Stencil.given reading.history ++
      [reading.lexer.next.2.lexeme reading.lexer.next.1])
    (hended : later.lexer.exhausted = ended later.history) :
    later.Sound source := by
  obtain ⟨exhausted, hlexer⟩ := hlexer
  have hplace : later.place = reading.place + 1 := by
    rw [Reading.place, hgiven, List.length_append, List.length_singleton,
      Reading.place]
  refine ⟨?_, ?_, ?_, hended⟩
  · rw [hlexer]
    exact hsound.reads
  · rw [hplace, hgiven, hsound.given, hsound.gives.head, Nat.add_zero,
      List.range_succ, List.map_append, List.map_singleton]
  · rw [hlexer]
    have hgives := hsound.gives.tail.exhaust exhausted
    simp only [hplace, Nat.add_assoc, Nat.add_comm 1]
    exact hgives

theorem Lexer.pull_of_exhausted (hexhausted : lexer.exhausted = true) :
    lexer.pull .next? = ([], lexer) := by
  have hnone : lexer.next? = none := by rw [next?, if_pos hexhausted]
  simp only [pull, hnone]

theorem Lexer.pull_of_open (hopen : lexer.exhausted = false) :
    lexer.pull .next? = ([lexer.next.2.lexeme lexer.next.1],
      { lexer.next.2 with exhausted := lexer.next.1 == .eof }) := by
  have hsome : lexer.next? = some (lexer.next.1,
      { lexer.next.2 with exhausted := lexer.next.1 == .eof }) := by
    rw [next?, hopen]
    rfl
  simp only [pull, hsome]
  rfl

/-- Every pull keeps to the sequence. -/
theorem Reading.Sound.after (hsound : reading.Sound source) (pull : Pull) :
    (reading.after pull).Sound source := by
  cases pull with
  | next => exact hsound.move ⟨_, rfl⟩ rfl hsound.exhausted
  | next? =>
      have hended := hsound.exhausted
      rw [Reading.after]
      cases hexhausted : reading.lexer.exhausted with
      | true =>
          rw [Lexer.pull_of_exhausted hexhausted]
          exact hsound.stay rfl (List.append_nil _) (Bool.or_false _)
      | false =>
          rw [Lexer.pull_of_open hexhausted]
          rw [hexhausted] at hended
          refine hsound.move ⟨reading.lexer.next.1 == .eof, rfl⟩ rfl ?_
          simp [ended, ← hended, Lexer.lexeme]
  | drainCopy => exact hsound.stay rfl rfl rfl
  | reset =>
      rw [Reading.after, Lexer.pull, Lexer.reset, hsound.reads]
      exact Reading.Sound.fresh rfl rfl

theorem Reading.sound_ofPulls (source : String) (pulls : List Pull) :
    (ofPulls source pulls).Sound source := by
  have hkept : ∀ reading : Reading, reading.Sound source →
      (pulls.foldl Reading.after reading).Sound source := by
    induction pulls with
    | nil => exact fun _ hsound => hsound
    | cons pull rest ih => exact fun _ hsound => ih _ (hsound.after pull)
  exact hkept _ (Reading.Sound.fresh rfl rfl)

/-- The answers of a lexer are its own: what was answered before is left as it
is. -/
theorem Reading.history_foldl (lexer : Lexer) (pulls : List Pull) :
    ∃ answers, answers.length = pulls.length ∧ ∀ history,
      (pulls.foldl Reading.after ⟨lexer, history⟩).history =
        answers ++ history := by
  induction pulls generalizing lexer with
  | nil => exact ⟨[], rfl, fun _ => rfl⟩
  | cons pull rest ih =>
      obtain ⟨answers, hlength, hanswers⟩ := ih (lexer.pull pull).2
      refine ⟨answers ++ [⟨pull, (lexer.pull pull).1⟩], ?_, ?_⟩
      · rw [List.length_append, hlength, List.length_singleton,
          List.length_cons]
      · intro history
        rw [List.foldl_cons, Reading.after, hanswers, List.append_assoc,
          List.singleton_append]

/-- What the next pull gives, whatever pulls came before. -/
structure Reading.Continues (source : String) (reading : Reading) : Prop where
  given : given reading.history =
    (List.range reading.place).map (entryAt source)
  next : (reading.lexer.pull .next).1 = [entryAt source reading.place]
  /-- After its end of input the sequence that ends gives nothing, and moves
  nothing. -/
  ended : ended reading.history = true →
    reading.lexer.pull .next? = ([], reading.lexer)
  more : Stencil.ended reading.history = false →
    (reading.lexer.pull .next?).1 = [entryAt source reading.place]
  drainEnded : Stencil.ended reading.history = true →
    (reading.lexer.pull .drainCopy).1 = []
  drainMore : Stencil.ended reading.history = false →
    UpToEnd (fun place => entryAt source (reading.place + place))
      (reading.lexer.pull .drainCopy).1

theorem Lexer.drain_of_exhausted (hexhausted : lexer.exhausted = true) :
    lexer.drain = [] := by
  rw [drain]
  split
  · rfl
  · rename_i hsome
    rw [next?, if_pos hexhausted] at hsome
    cases hsome

theorem Reading.Sound.continues (hsound : reading.Sound source) :
    reading.Continues source := by
  have hexhausted := hsound.exhausted
  have hnext := hsound.gives.head
  rw [Nat.add_zero] at hnext
  refine ⟨hsound.given, congrArg (fun entry => [entry]) hnext, ?_, ?_, ?_, ?_⟩
  · intro hended
    exact Lexer.pull_of_exhausted (hexhausted.trans hended)
  · intro hmore
    rw [Lexer.pull_of_open (hexhausted.trans hmore), hnext]
  · intro hended
    exact Lexer.drain_of_exhausted (hexhausted.trans hended)
  · intro hmore
    exact hsound.gives.drain (hexhausted.trans hmore)

theorem ended_history {pulls : List Pull} (hpulls : .next? ∉ pulls)
    (reading : Reading) (hended : ended reading.history = false) :
    ended (pulls.foldl Reading.after reading).history = false := by
  induction pulls generalizing reading with
  | nil => exact hended
  | cons pull rest ih =>
      rw [List.mem_cons, not_or] at hpulls
      apply ih hpulls.2
      cases pull with
      | next | drainCopy => exact hended
      | next? => exact absurd rfl hpulls.1
      | reset => rfl

end

/-- All ways of pulling a lexer, in any order, read one sequence.  Only the
sequence that ends stops, and only once it has given the end of input itself.
Draining a copy changes no later answer. -/
theorem Lexer.pulls_read_entries (source : String) :
    (∀ pulls, (Reading.ofPulls source pulls).Continues source) ∧
    (∀ pulls, .next? ∉ pulls →
      ((Reading.ofPulls source pulls).lexer.pull .next?).1 ≠ []) ∧
    ∀ earlier later,
      (Reading.ofPulls source
          (earlier ++ .drainCopy :: later)).history.eraseIdx later.length =
        (Reading.ofPulls source (earlier ++ later)).history := by
  refine ⟨?_, ?_, ?_⟩
  · intro pulls
    exact (Reading.sound_ofPulls source pulls).continues
  · intro pulls hpulls
    have hmore := ended_history hpulls ⟨.ofSource source, []⟩ rfl
    rw [(Reading.sound_ofPulls source pulls).continues.more hmore]
    exact List.cons_ne_nil _ _
  · intro earlier later
    obtain ⟨answers, hlength, hanswers⟩ :=
      Reading.history_foldl (Reading.ofPulls source earlier).lexer later
    have hdrained : (Reading.ofPulls source
        (earlier ++ .drainCopy :: later)).history = answers ++
          ((Reading.ofPulls source earlier).after .drainCopy).history := by
      rw [Reading.ofPulls, List.foldl_append, List.foldl_cons]
      exact hanswers _
    have hplain : (Reading.ofPulls source (earlier ++ later)).history =
        answers ++ (Reading.ofPulls source earlier).history := by
      rw [Reading.ofPulls, List.foldl_append]
      exact hanswers _
    rw [hdrained, hplain, ← hlength,
      List.eraseIdx_append_of_length_le (Nat.le_refl _), Nat.sub_self]
    rfl

namespace PullingWitness

/-- The second entry is never closed. -/
def source : String := "a%\x7bb"

/-- The end of input is given by completing a span, and then by the sequence
that ends too. -/
def pulls : List Pull :=
  [.next?, .reset, .next, .drainCopy, .next?, .next, .drainCopy, .next?]

theorem copies_drained :
    (Reading.ofPulls source (pulls.take 4)).place = 1 ∧
    UpToEnd (fun place => entryAt source (1 + place))
      [⟨.script, ⟨3, 4⟩, 1, "b", none⟩, ⟨.eof, ⟨4, 4⟩, 1, "", none⟩] ∧
    UpToEnd (fun place => entryAt source (3 + place))
      [⟨.eof, ⟨4, 4⟩, 1, "", none⟩] ∧
    ended (Reading.ofPulls source pulls).history = true ∧
    (Reading.ofPulls source pulls).lexer.pull .next? =
      ([], (Reading.ofPulls source pulls).lexer) ∧
    ((Reading.ofPulls source [.next, .next, .next]).lexer.pull
      .next?).1 ≠ [] := by
  obtain ⟨hcontinues, hmore, _⟩ := Lexer.pulls_read_entries source
  have hmiddle := (hcontinues (pulls.take 4)).drainMore (by decide +kernel)
  have hend := (hcontinues (pulls.take 6)).drainMore (by decide +kernel)
  have hone : (Reading.ofPulls source (pulls.take 4)).place = 1 := by
    decide +kernel
  have hthree : (Reading.ofPulls source (pulls.take 6)).place = 3 := by
    decide +kernel
  have hended : ended (Reading.ofPulls source pulls).history = true := by
    decide +kernel
  rw [hone] at hmiddle
  rw [hthree] at hend
  refine ⟨hone, ?_, ?_, hended, (hcontinues pulls).ended hended,
    hmore _ (by decide)⟩
  · rwa [show (Lexer.pull _ Pull.drainCopy).1 =
      [⟨.script, ⟨3, 4⟩, 1, "b", none⟩, ⟨.eof, ⟨4, 4⟩, 1, "", none⟩] by
        decide +kernel] at hmiddle
  · rwa [show (Lexer.pull _ Pull.drainCopy).1 =
      [⟨.eof, ⟨4, 4⟩, 1, "", none⟩] by decide +kernel] at hend

end PullingWitness

end Stencil
