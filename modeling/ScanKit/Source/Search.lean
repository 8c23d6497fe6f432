import ScanKit.Source.Basic

/-! # Searching a source -/

universe u

namespace ScanKit.Source

variable {σ : Type u} [Source σ]

/-- The bytes of a pattern stand at a distance ahead of the position. The source is read up to the
first byte that differs or does not come. -/
def matchesAt : Nat → List UInt8 → σ → Bool × σ
  | _, [], s => (true, s)
  | offset, b :: bs, s => match look offset s with
    | (.ok found, s) => if found = b then matchesAt (offset + 1) bs s else (false, s)
    | (.error _, s) => (false, s)

/-- The bytes of a pattern stand at the position. -/
def startsWith (pattern : List UInt8) (s : σ) : Bool × σ := matchesAt 0 pattern s

/-- One of some patterns stands at the position. They are tried in order up to the first that
does. -/
def startsWithAny : List (List UInt8) → σ → Bool × σ
  | [], s => (false, s)
  | p :: ps, s => match startsWith p s with
    | (true, s) => (true, s)
    | (false, s) => startsWithAny ps s

/-- What a search found: the positions, and the failure that stopped it. -/
structure Hits where
  positions : List Nat
  stoppedBy? : Option SourceError

/-- Tries the patterns at so many positions, up to the end or a failure. -/
def scanFor (patterns : List (List UInt8)) : Nat → σ → Hits × σ
  | 0, s => (⟨[], none⟩, s)
  | positions + 1, s =>
      if atEnd s then (⟨[], none⟩, s)
      else
        let tried := startsWithAny patterns s
        let here := if tried.1 then [pos tried.2] else []
        match skip 1 tried.2 with
        | (.error e, s) => (⟨here, some e⟩, s)
        | (.ok 0, s) => (⟨here, none⟩, s)
        | (.ok _, s) =>
            let later := scanFor patterns positions s
            (⟨here ++ later.1.positions, later.1.stoppedBy?⟩, later.2)

/-- The positions from here on where one of some patterns stands. -/
def scan (patterns : List (List UInt8)) (s : σ) : Hits × σ := scanFor patterns (ahead s + 1) s

/-- Takes up to so many bytes one by one; if it comes to an error, that one. -/
def takeBytes : Nat → σ → List UInt8 × Option SourceError × σ
  | 0, s => ([], none, s)
  | n + 1, s => match look 0 s with
    | (.error e, s) => ([], some e, s)
    | (.ok b, s) => match skip 1 s with
      | (.error e, s) => ([b], some e, s)
      | (.ok _, s) =>
          let later := takeBytes n s
          (b :: later.1, later.2)

/-- Takes all bytes up to an error, be it the end of the input. -/
def drain (s : σ) : List UInt8 × Option SourceError × σ := takeBytes (ahead s + 1) s

end ScanKit.Source
