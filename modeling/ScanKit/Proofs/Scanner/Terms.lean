import ScanKit.Sample
import ScanKit.Scanner.Basic
import ScanKit.Proofs.Loop

/-!
# Reading generated expressions back

A generated expression is read term by term: a turn of one loop takes a parenthesis, a word, the
parenthesis that closes and the bar behind it, if there is one (`termTurn`).  A turn of the other
takes one byte (`drainTurn`).  What the operations do is told by the bytes before the scanner
(`Before`): some spaces and a byte that is none, or a word and the space that ends it.
-/

namespace ScanKit

/-! ## Words -/

theorem Byte.isSpace_eq_false_of_isAlphanumeric {b : UInt8} (h : isAlphanumeric b = true) :
    isSpace b = false := by
  simp only [isAlphanumeric, isAlpha, isDigit, Bool.or_eq_true, Bool.and_eq_true,
    decide_eq_true_eq, UInt8.le_iff_toNat_le, UInt8.reduceToNat] at h
  simp only [isSpace, Bool.or_eq_false_iff, Bool.and_eq_false_iff, beq_eq_false_iff_ne,
    decide_eq_false_iff_not, ne_eq, UInt8.le_iff_toNat_le, ← UInt8.toNat_inj, UInt8.reduceToNat]
  omega

theorem Byte.isAlphanumeric_of_isDigit {d : Char} (h : d.isDigit = true) :
    isAlphanumeric d.toUInt8 = true := by
  obtain ⟨hlow, hhigh⟩ : 0x30 ≤ d.toNat ∧ d.toNat ≤ 0x39 := Char.isDigit_iff_toNat.1 h
  have hbyte : d.toUInt8.toNat = d.toNat :=
    Nat.mod_eq_of_lt (Nat.lt_of_le_of_lt hhigh (by decide))
  simp only [isAlphanumeric, isDigit, Bool.or_eq_true, Bool.and_eq_true, decide_eq_true_eq,
    UInt8.le_iff_toNat_le, UInt8.reduceToNat, hbyte]
  exact .inr ⟨hlow, hhigh⟩

namespace Sample

theorem isAlphanumeric_of_mem_label {i : Nat} {b : UInt8} (h : b ∈ label i) :
    Byte.isAlphanumeric b = true := by
  rcases List.mem_cons.1 h with rfl | hdecimal
  · have hletter : i % 26 < 26 := Nat.mod_lt i (by decide)
    simp only [Byte.isAlphanumeric, Byte.isAlpha, Bool.or_eq_true, Bool.and_eq_true,
      decide_eq_true_eq, UInt8.le_iff_toNat_le, UInt8.reduceToNat, UInt8.toNat_ofNat']
    omega
  · obtain ⟨d, hd, rfl⟩ := List.mem_map.1 hdecimal
    exact Byte.isAlphanumeric_of_isDigit
      (Nat.isDigit_of_mem_toDigits (by decide) (by decide) hd)

theorem isSpace_of_mem_label {i : Nat} {b : UInt8} (h : b ∈ label i) :
    Byte.isSpace b = false :=
  Byte.isSpace_eq_false_of_isAlphanumeric (isAlphanumeric_of_mem_label h)

theorem term_eq (i : Nat) : term i = [0x28, 0x20, 0x20] ++ label i ++ [0x20, 0x20, 0x29] := rfl

/-- The expression whose terms have these numbers. -/
def termsOf (is : List Nat) : List UInt8 := List.intercalate [0x20, 0x7C, 0x20] (is.map term)

theorem expression_eq (n : Nat) : expression n = termsOf (List.range n) := rfl

theorem termsOf_singleton (i : Nat) : termsOf [i] = term i := List.intercalate_singleton

theorem termsOf_cons_cons (i j : Nat) (is : List Nat) :
    termsOf (i :: j :: is) = term i ++ [0x20, 0x7C, 0x20] ++ termsOf (j :: is) :=
  List.intercalate_cons_cons

end Sample

namespace Scanner

/-- Words between parentheses, with bars between them and no spaces. -/
def compact (words : List (List UInt8)) : List UInt8 :=
  List.intercalate [0x7C] (words.map fun word => 0x28 :: word ++ [0x29])

/-! ## Loops -/

/-- Takes the word of a term and the parentheses around it. -/
def readTerm (c : Scanner) : Except SyntaxError (List UInt8) × Scanner := match c.expect 0x28 with
  | (.error e, c) => (.error e, c)
  | (.ok (), c) =>
      let run := c.trimmed.takeClass Byte.isAlphanumeric
      match run.2.expect 0x29 with
      | (.error e, c) => (.error e, c)
      | (.ok (), c) => (.ok run.1, c)

/-- One turn of the loop that reads the terms: it ends where no bar follows, or with an error. -/
def termTurn : List (List UInt8) × Scanner →
    (Except SyntaxError (List (List UInt8)) × Scanner) ⊕ (List (List UInt8) × Scanner)
  | (words, c) => match c.readTerm with
    | (.error e, c) => .inl (.error e, c)
    | (.ok word, c) => match c.accept 0x7C with
      | (false, c) => .inl (.ok (words ++ [word]), c)
      | (true, c) => .inr (words ++ [word], c)

/-- One turn of the loop that takes byte after byte until the scanner is halted. -/
def drainTurn : List UInt8 × Scanner → (List UInt8 × Scanner) ⊕ (List UInt8 × Scanner)
  | (seen, c) =>
    if c.halted then .inl (seen, c)
    else
      let taken := c.next
      .inr (seen ++ [taken.1], taken.2)

/-! ## What stands before a scanner -/

section Run

variable {p : UInt8 → Bool} {run : List UInt8} {b : UInt8}

theorem takeWhile_run (hrun : ∀ x ∈ run, p x = true) (hb : p b = false) (rest : List UInt8) :
    (run ++ b :: rest).takeWhile p = run := by
  rw [List.takeWhile_append_of_pos hrun, List.takeWhile_cons_of_neg (by simp [hb]),
    List.append_nil]

theorem dropWhile_run (hrun : ∀ x ∈ run, p x = true) (hb : p b = false) (rest : List UInt8) :
    (run ++ b :: rest).dropWhile p = b :: rest := by
  rw [List.dropWhile_append_of_pos hrun, List.dropWhile_cons_of_neg (by simp [hb])]

end Run

theorem split_class (p : UInt8 → Bool) (bs : List UInt8) :
    split (fun s b => (p b, s)) () bs = (bs.takeWhile p, bs.dropWhile p, ()) := by
  induction bs with
  | nil => rfl
  | cons b bs ih => cases hb : p b <;> simp [split, hb, ih]

/-- The scanner has no error and these bytes before it. -/
structure Before (c : Scanner) (bs : List UInt8) : Prop where
  noError : c.error? = none
  rest_eq : c.rest = bs

theorem before_ofBytes (bs : List UInt8) : (ofBytes bs).Before bs := ⟨rfl, rfl⟩

namespace Before

variable {c : Scanner} {b : UInt8} {rest : List UInt8}

theorem past {run : List UInt8} (h : c.Before (run ++ rest)) : (c.past run rest).Before rest :=
  ⟨h.noError, rfl⟩

/-- A run of a class ends before a byte that is not of the class. -/
theorem takeClass {p : UInt8 → Bool} (run : List UInt8) (h : c.Before (run ++ b :: rest))
    (hrun : ∀ x ∈ run, p x = true) (hb : p b = false) :
    ∃ d, c.takeClass p = (run, d) ∧ d.Before (b :: rest) := by
  refine ⟨c.past run (b :: rest), ?_, h.past⟩
  simp [Scanner.takeClass, takeRun, h.noError, h.rest_eq, split_class, takeWhile_run hrun hb,
    dropWhile_run hrun hb]

theorem halted_nil (h : c.Before []) : c.halted = true := by
  simp [halted, atEnd, h.rest_eq]

/-- At the end no byte is taken. -/
theorem accept_nil (h : c.Before []) (x : UInt8) : c.accept x = (false, c) := by
  simp [Scanner.accept, Scanner.trimmed, trim_of_halted h.halted_nil, acceptHere, h.noError,
    h.rest_eq]

/-! Behind some spaces a byte that is none comes. -/

section Spaces

variable (spaces : List UInt8) (h : c.Before (spaces ++ b :: rest))
  (hspaces : spaces.all Byte.isSpace = true) (hb : Byte.isSpace b = false)

include h

theorem halted : c.halted = false := by
  simp [Scanner.halted, atEnd, h.noError, h.rest_eq]

include hspaces hb

theorem trimmed : c.trimmed.Before ([b] ++ rest) :=
  ⟨c.error?_trimmed.trans h.noError,
    by rw [rest_trimmed h.noError, h.rest_eq, dropWhile_run (List.all_eq_true.1 hspaces) hb,
      List.singleton_append]⟩

theorem next : ∃ d, c.next = (b, d) ∧ d.Before rest := by
  have htrimmed := h.trimmed spaces hspaces hb
  exact ⟨c.trimmed.past [b] rest,
    by simp [Scanner.next, next?, h.halted spaces, htrimmed.rest_eq], htrimmed.past⟩

theorem accept : ∃ d, c.accept b = (true, d) ∧ d.Before rest := by
  have htrimmed := h.trimmed spaces hspaces hb
  exact ⟨c.trimmed.past [b] rest,
    by simp [Scanner.accept, acceptHere, htrimmed.rest_eq, h.noError], htrimmed.past⟩

theorem expect : ∃ d, c.expect b = (.ok (), d) ∧ d.Before rest := by
  obtain ⟨d, haccept, hd⟩ := h.accept spaces hspaces hb
  exact ⟨d, by simp [Scanner.expect, h.noError, haccept], hd⟩

end Spaces

end Before

/-! ## Reading the terms -/

section Terms

variable {c : Scanner}

/-- A term after spaces is read up to the parenthesis that closes it, and its word is the label. -/
theorem Before.readTerm {i : Nat} {behind : List UInt8} (spaces : List UInt8)
    (h : c.Before (spaces ++ (Sample.term i ++ behind)))
    (hspaces : spaces.all Byte.isSpace = true) :
    ∃ d, c.readTerm = (.ok (Sample.label i), d) ∧ d.Before behind := by
  have hterm : Sample.term i ++ behind =
      0x28 :: ([0x20, 0x20] ++ (Sample.label i ++ 0x20 :: 0x20 :: 0x29 :: behind)) := by
    simp [Sample.term_eq]
  rw [hterm] at h
  obtain ⟨c₁, hopen, h⟩ := h.expect spaces hspaces rfl
  have htrimmed := h.trimmed [0x20, 0x20] rfl (Sample.isSpace_of_mem_label List.mem_cons_self)
  obtain ⟨c₂, hword, h⟩ := htrimmed.takeClass (Sample.label i)
    (fun _ => Sample.isAlphanumeric_of_mem_label) rfl
  obtain ⟨c₃, hclose, h⟩ := h.expect [0x20, 0x20] rfl rfl
  exact ⟨c₃, by simp [Scanner.readTerm, hopen, hword, hclose], h⟩

/-- The loop reads all terms, one in each turn, and ends at the end of the input. -/
theorem Before.readTerms {i : Nat} {is : List Nat} (spaces : List UInt8)
    (h : c.Before (spaces ++ Sample.termsOf (i :: is)))
    (hspaces : spaces.all Byte.isSpace = true) (words : List (List UInt8)) :
    ∃ d, EndsAfter termTurn (is.length + 1) (words, c)
      (.ok (words ++ (i :: is).map Sample.label), d) ∧ d.Before [] := by
  induction is generalizing i c spaces words with
  | nil =>
      rw [Sample.termsOf_singleton, ← List.append_nil (Sample.term i)] at h
      obtain ⟨d, hterm, hd⟩ := h.readTerm spaces hspaces
      exact ⟨d, .done (by simp [termTurn, hterm, hd.accept_nil]), hd⟩
  | cons j is ih =>
      rw [Sample.termsOf_cons_cons, List.append_assoc] at h
      obtain ⟨d, hterm, hd⟩ := h.readTerm spaces hspaces
      obtain ⟨e, hbar, he⟩ := hd.accept [0x20] rfl rfl
      obtain ⟨f, hlater, hf⟩ := ih [0x20] he rfl (words ++ [Sample.label i])
      have hturn : termTurn (words, c) = .inr (words ++ [Sample.label i], e) := by
        simp [termTurn, hterm, hbar]
      rw [List.append_assoc, List.singleton_append] at hlater
      exact ⟨f, .more hturn hlater, hf⟩

end Terms

/-! ## Draining -/

/-- The bytes that are no spaces. -/
def visible (bs : List UInt8) : List UInt8 := bs.filter fun b => !Byte.isSpace b

theorem visible_append (bs bs' : List UInt8) : visible (bs ++ bs') = visible bs ++ visible bs' :=
  List.filter_append bs bs'

theorem visible_term (i : Nat) : visible (Sample.term i) = 0x28 :: Sample.label i ++ [0x29] := by
  have hlabel : visible (Sample.label i) = Sample.label i :=
    List.filter_eq_self.2 fun b hb => by simp [Sample.isSpace_of_mem_label hb]
  rw [Sample.term_eq, visible_append, visible_append, hlabel]
  rfl

/-- Without the spaces the terms and the bars between them are left. -/
theorem visible_termsOf (is : List Nat) :
    visible (Sample.termsOf is) = compact (is.map Sample.label) := by
  induction is with
  | nil => rfl
  | cons i is ih =>
      cases is with
      | nil =>
          rw [Sample.termsOf_singleton, visible_term]
          exact List.intercalate_singleton.symm
      | cons j is =>
          have hbar : visible [0x20, 0x7C, 0x20] = [0x7C] := by decide
          rw [Sample.termsOf_cons_cons, visible_append, visible_append, visible_term, hbar, ih]
          exact List.intercalate_cons_cons.symm

/-- The last byte is no space. -/
theorem getLast?_termsOf (i : Nat) (is : List Nat) :
    (Sample.termsOf (i :: is)).getLast? = some 0x29 := by
  induction is generalizing i with
  | nil =>
      rw [Sample.termsOf_singleton, Sample.term_eq, List.getLast?_append]
      rfl
  | cons j is ih =>
      rw [Sample.termsOf_cons_cons, List.getLast?_append, ih]
      rfl

/-- The loop takes the bytes that are no spaces, one in each turn, and has one more turn to see that
the scanner is halted.  Behind spaces at the end it would take the sentinel. -/
theorem Before.drain {c : Scanner} {bs : List UInt8} (h : c.Before bs)
    (hlast : ∀ b ∈ bs.getLast?, Byte.isSpace b = false) (seen : List UInt8) :
    ∃ d, EndsAfter drainTurn ((visible bs).length + 1) (seen, c) (seen ++ visible bs, d) := by
  -- by induction on the bytes that are taken
  induction hvisible : visible bs generalizing c bs seen with
  | nil =>
      have hnil : bs = [] := by
        rcases List.eq_nil_or_concat bs with hnil | ⟨front, b, rfl⟩
        · exact hnil
        · have hb : Byte.isSpace b = false := hlast b (by simp)
          simp [visible, hb] at hvisible
      subst hnil
      rw [List.append_nil]
      exact ⟨c, .done (by simp [drainTurn, h.halted_nil])⟩
  | cons b later ih =>
      obtain ⟨spaces, rest, rfl, hspaces, hb, hrest⟩ := List.filter_eq_cons_iff.1 hvisible
      obtain ⟨d, hnext, hd⟩ := h.next spaces (by simpa using hspaces) (by simpa using hb)
      have hlastRest : ∀ x ∈ rest.getLast?, Byte.isSpace x = false := by
        intro x hx
        refine hlast x ?_
        rw [Option.mem_def] at hx
        simp [List.getLast?_append, List.getLast?_cons, hx]
      obtain ⟨e, hlater⟩ := ih hd hlastRest (seen ++ [b]) hrest
      rw [List.append_assoc, List.singleton_append] at hlater
      exact ⟨e, .more (by simp [drainTurn, h.halted spaces, hnext]) hlater⟩

/-! ## Generated expressions -/

/-- A generated expression of one term or more is read back: the loop over its terms takes one turn
for each and ends without an error at the end of the input, and the word of each term is a letter,
which goes round the alphabet, and the digits of the number of the term to base ten.  Byte after byte,
the same expression comes without its spaces. -/
theorem terms_read_back {n : Nat} (hn : 1 ≤ n) :
    ∃ words c d,
      EndsAfter termTurn n ([], ofBytes (Sample.expression n)) (.ok words, c) ∧
        words = (List.range n).map (fun i =>
          UInt8.ofNat (0x61 + i % 26) :: (Nat.toDigits 10 i).map Char.toUInt8) ∧
        c.error? = none ∧ c.atEnd = true ∧
        EndsAfter drainTurn ((compact words).length + 1) ([], ofBytes (Sample.expression n))
          (compact words, d) := by
  obtain ⟨i, is, hrange⟩ : ∃ i is, List.range n = i :: is :=
    List.exists_cons_of_length_pos (by rw [List.length_range]; exact hn)
  have hturns : n = is.length + 1 := by
    rw [← List.length_cons, ← hrange, List.length_range]
  have hbefore := before_ofBytes (Sample.termsOf (i :: is))
  have hlast : ∀ b ∈ (Sample.termsOf (i :: is)).getLast?, Byte.isSpace b = false := by
    intro b hb
    rw [getLast?_termsOf] at hb
    cases hb
    rfl
  obtain ⟨c, hread, hc⟩ := hbefore.readTerms [] rfl []
  obtain ⟨d, hdrained⟩ := hbefore.drain hlast []
  rw [visible_termsOf] at hdrained
  rw [Sample.expression_eq, hrange, hturns]
  exact ⟨(i :: is).map Sample.label, c, d, hread, rfl, hc.noError, by simp [atEnd, hc.rest_eq],
    hdrained⟩

/-- The words of terms that go round the alphabet, with numbers of one digit and of two. -/
def roundTheAlphabet : List String :=
  ["a0", "b1", "c2", "d3", "e4", "f5", "g6", "h7", "i8", "j9", "k10", "l11", "m12", "n13", "o14",
    "p15", "q16", "r17", "s18", "t19", "u20", "v21", "w22", "x23", "y24", "z25", "a26", "b27"]

/-- The letter of the term behind the one with a `z` is an `a` again, and its number is read to its
last digit.  The first bytes are those of a term with two spaces before its word and behind it. -/
theorem terms_read_back_roundTheAlphabet :
    1 ≤ 28 ∧ ∃ words c d,
      EndsAfter termTurn 28 ([], ofBytes (Sample.expression 28)) (.ok words, c) ∧
        (Sample.expression 28).take 13 = Byte.ofText "(  a0  ) | ( " ∧
        words = roundTheAlphabet.map Byte.ofText ∧ c.error? = none ∧ c.atEnd = true ∧
        EndsAfter drainTurn 158 ([], ofBytes (Sample.expression 28))
          (Byte.ofText ("(" ++ String.intercalate ")|(" roundTheAlphabet ++ ")"), d) := by
  obtain ⟨words, c, d, hread, hwords, herror, hend, hdrained⟩ :=
    terms_read_back (n := 28) (by decide)
  have hlabels : words = roundTheAlphabet.map Byte.ofText := hwords.trans (by decide +kernel)
  have hcompact : compact words =
      Byte.ofText ("(" ++ String.intercalate ")|(" roundTheAlphabet ++ ")") := by
    rw [hlabels]
    decide +kernel
  have hlength : (compact words).length + 1 = 158 := by
    rw [hlabels]
    decide +kernel
  have hstart : (Sample.expression 28).take 13 = Byte.ofText "(  a0  ) | ( " := by decide +kernel
  rw [hlength, hcompact] at hdrained
  exact ⟨by decide, words, c, d, hread, hstart, hlabels, herror, hend, hdrained⟩

end Scanner

end ScanKit
