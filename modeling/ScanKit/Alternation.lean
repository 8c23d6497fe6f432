import ScanKit.Arena.Chain
import ScanKit.ByteString
import ScanKit.Scanner.Basic
import ScanKit.Source.Search

/-! # Alternations

An alternation is written as words in ASCII letters and digits between parentheses, with a bar
between two words and any spaces around them. Its words become a chain of nodes, and a source can be
searched for them.
-/

universe u

namespace ScanKit

namespace Alternation

/-- The words read, in order, and the error that reading ended with. -/
structure Reading where
  words : List (List UInt8)
  error? : Option SyntaxError

/-- Reads at most so many words and the parenthesis that closes them. -/
def readWords : Nat → Scanner → Reading
  | 0, _ => ⟨[], none⟩
  | limit + 1, c =>
      let run := c.trimmed.takeClass Byte.isAlphanumeric
      if run.1.isEmpty then ⟨[], some (.rejected run.2.pos "empty alternative")⟩
      else match run.2.accept 0x7C with
        | (true, c) =>
            let later := readWords limit c
            ⟨run.1 :: later.words, later.error?⟩
        | (false, c) => match c.expect 0x29 with
          | (.ok (), _) => ⟨[run.1], none⟩
          | (.error e, _) => ⟨[run.1], some e⟩

/-- Reads the alternation that some bytes start with. There are no more words than bytes. -/
def read (bs : List UInt8) : Reading := match (Scanner.ofBytes bs).expect 0x28 with
  | (.ok (), c) => readWords (bs.length + 1) c
  | (.error e, _) => ⟨[], some e⟩

end Alternation

/-- The words of an alternation and the first node of their chain. -/
structure Alternation where
  root? : Option NodeRef
  words : List ByteString

namespace Alternation

/-- Reads the alternation that some bytes start with into an arena. The nodes of the words before an
error are made too. -/
def parse (nodes : Arena (List UInt8)) (bs : List UInt8) :
    Except SyntaxError Alternation × Arena (List UInt8) :=
  let reading := read bs
  let chain := nodes.chain reading.words
  match reading.error? with
  | some e => (.error e, chain.2)
  | none => (.ok ⟨chain.1, reading.words.map .own⟩, chain.2)

/-- The values along the chain of an alternation. -/
def patterns (g : Alternation) (nodes : Arena (List UInt8)) : List (List UInt8) :=
  match g.root?.map nodes.values with
  | some (.ok values) => values
  | _ => []

variable {σ : Type u} [Source σ]

/-- The positions in a source where one of the words stands. -/
def occurrences (g : Alternation) (nodes : Arena (List UInt8)) (s : σ) : List Nat :=
  (Source.scan (g.patterns nodes) s).1.positions

end Alternation

end ScanKit
