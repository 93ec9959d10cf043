/-
Reading a text that holds one document in YAML notation, or none.

A document may begin with a line of three dashes and end with one of three
dots.  Directives may come before the dashes.
-/
import Stencil.NodeSymbols
import Stencil.Outline

namespace Stencil

/-- Characters that may stand in such a text at all. -/
def isWritable (char : Char) : Bool :=
  let code := char.toNat
  code == 0x09 || code == 0x0A || code == 0x0D ||
    (0x20 ≤ code && code ≤ 0x7E) || code == 0x85 ||
    (0xA0 ≤ code && code ≤ 0xFFFD) || 0x10000 ≤ code

/-- Read directives: at most one version, which must be understood, and each
handle at most once.  `handles` are those stated so far. -/
def directives? (versioned : Bool) (handles : Handles) :
    List Symbol → Option (Handles × List Symbol)
  | .version major minor :: rest =>
      if !versioned && major == 1 && (minor == 1 || minor == 2) then
        directives? true handles rest
      else none
  | .handle name meaning :: rest =>
      if (handles.lookup name).isSome then none
      else directives? versioned ((name, meaning) :: handles) rest
  | rest => some (handles, rest)

/-- Whether a symbol is one of those around documents. -/
def Symbol.isBoundary : Symbol → Bool
  | .version _ _ => true
  | .handle _ _ => true
  | .documentStart => true
  | .documentEnd => true
  | _ => false

/-- Read the node of a document.  An announced one may be empty.  Fewer than
eight readings begin from one symbol to the next, so the depth is enough. -/
def documentNode? (handles : Handles) (announced : Bool)
    (symbols : List Symbol) : Option (Node × List Symbol) :=
  if announced && symbols.head?.all Symbol.isBoundary then
    some (.empty, symbols)
  else
    node? (8 * (symbols.length + 1)) (handles ++ Handles.stock) true false
      symbols

/-- Read the first document, if there is one. -/
def firstDocument? (symbols : List Symbol) :
    Option (Option Node × List Symbol) :=
  if symbols.isEmpty then some (none, [])
  else
    let opening? :=
      if symbols.head?.any (fun first =>
          first.isBoundary && first != .documentEnd) then
        (directives? false [] symbols).bind fun (handles, rest) =>
          if rest.head? = some .documentStart then
            documentNode? handles true (rest.drop 1)
          else none
      else documentNode? [] false symbols
    opening?.map fun (node, rest) => (some node, rest)

/-- Read the document in a text.  Nothing may follow it but signs of its end.
A text of nothing but comments holds none. -/
def document? (text : String) : Option (Option Node) :=
  if text.toList.all isWritable then
    (symbols? text.toList).bind fun symbols =>
      (firstDocument? symbols).bind fun (node, rest) =>
        if rest.all (· == .documentEnd) then some node else none
  else none

end Stencil
