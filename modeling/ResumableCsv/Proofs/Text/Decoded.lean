import ResumableCsv.NulBytes.Policy
import ResumableCsv.Proofs.Text.Utf8

/-!
Decoding bytes none of which is zero: no encoding makes a NUL character of them. Of the character
sets from elsewhere that is taken on trust.
-/

namespace ResumableCsv

/-- No cell holds a NUL character. -/
def Row.NulFree (row : Row) : Prop := ∀ cell ∈ row, NulPolicy.hasNul cell = false

theorem NulPolicy.hasNul_eq_false_iff {cell : String} :
    hasNul cell = false ↔ '\x00' ∉ cell.toList := by
  simp [hasNul]

namespace Encoding

theorem ofNat_ne_nul {n : Nat} (valid : n.isValidChar) (positive : n ≠ 0) :
    Char.ofNat n ≠ '\x00' := by
  intro same
  have number := Text.toNat_ofNat valid
  rw [same] at number
  exact positive number.symm

theorem isValidChar_of_lt {n : Nat} (small : n < 0xD800) : n.isValidChar := .inl small

theorem toNat_ne_zero {byte : UInt8} (nonzero : byte ≠ 0) : byte.toNat ≠ 0 :=
  fun same => nonzero (UInt8.toNat_inj.mp same)

theorem windowsChar_ne_nul {byte : UInt8} (nonzero : byte ≠ 0) : windowsChar byte ≠ '\x00' := by
  have upper : ∀ n ∈ windowsUpper, n < 0xD800 ∧ n ≠ 0 := by decide
  simp only [windowsChar]
  split
  · cases found : windowsUpper[byte.toNat - 0x80]? with
    | none => exact Charset.ofNat_byte_ne_nul nonzero
    | some n =>
      obtain ⟨small, positive⟩ := upper n (List.mem_of_getElem? found)
      exact ofNat_ne_nul (isValidChar_of_lt small) positive
  · exact Charset.ofNat_byte_ne_nul nonzero

theorem userDefinedChar_ne_nul {byte : UInt8} (nonzero : byte ≠ 0) :
    userDefinedChar byte ≠ '\x00' := by
  have bound := byte.toNat_lt
  unfold userDefinedChar
  split
  · exact Charset.ofNat_byte_ne_nul nonzero
  · exact ofNat_ne_nul (.inr ⟨by omega, by omega⟩) (by omega)

theorem units16_ne_zero {bigEndian : Bool} {content : Bytes}
    (nonzero : ∀ byte ∈ content, byte ≠ 0) :
    ∀ units ∈ units16 bigEndian content, ∀ unit ∈ units, unit ≠ 0 ∧ unit < 0x10000 := by
  fun_induction units16 bigEndian content with
  | case1 => simp
  | case2 => simp
  | case3 first second rest unit ih =>
    have high := toNat_ne_zero (nonzero first (by simp))
    have low := toNat_ne_zero (nonzero second (by simp))
    have highBound := first.toNat_lt
    have lowBound := second.toNat_lt
    intro units read
    obtain ⟨others, later, rfl⟩ := Option.map_eq_some_iff.mp read
    refine List.forall_mem_cons.mpr
      ⟨?_, ih (fun byte member => nonzero byte (by simp [member])) others later⟩
    simp only [unit]
    split <;> omega

/-- A unit that is no surrogate stands for a character, and so does a pair of surrogates. -/
theorem charsOfUnits_ne_nul {units : List Nat} {chars : List Char}
    (bounded : ∀ unit ∈ units, unit ≠ 0 ∧ unit < 0x10000)
    (read : charsOfUnits units = some chars) : ∀ c ∈ chars, c ≠ '\x00' := by
  have single {unit : Nat} (bound : unit ≠ 0 ∧ unit < 0x10000)
      (plain : ¬(isHighSurrogate unit || isLowSurrogate unit) = true) :
      Char.ofNat unit ≠ '\x00' := by
    refine ofNat_ne_nul ?_ bound.1
    simp only [isHighSurrogate, isLowSurrogate, Bool.or_eq_true, Bool.and_eq_true,
      decide_eq_true_eq] at plain
    simp only [Nat.isValidChar]
    omega
  fun_induction charsOfUnits units generalizing chars with
  | case1 =>
    cases read
    simp
  | case2 => cases read
  | case3 unit plain =>
    cases read
    simpa using single (bounded unit (by simp)) plain
  | case4 unit next rest high low ih =>
    obtain ⟨others, later, rfl⟩ := Option.map_eq_some_iff.mp read
    refine List.forall_mem_cons.mpr
      ⟨?_, ih (fun unit member => bounded unit (by simp [member])) later⟩
    simp only [isHighSurrogate, isLowSurrogate, Bool.and_eq_true, decide_eq_true_eq] at high low
    exact ofNat_ne_nul (.inr ⟨by omega, by omega⟩) (by omega)
  | case5 => cases read
  | case6 => cases read
  | case7 unit next rest high low ih =>
    obtain ⟨others, later, rfl⟩ := Option.map_eq_some_iff.mp read
    refine List.forall_mem_cons.mpr
      ⟨single (bounded unit (by simp)) (by simp [high, low]),
        ih (fun unit member => bounded unit (List.mem_cons_of_mem _ member)) later⟩

theorem hasNul_ofBytes? {content : Bytes} {cell : String} (nonzero : ∀ byte ∈ content, byte ≠ 0)
    (read : Text.ofBytes? content = some cell) : NulPolicy.hasNul cell = false := by
  rw [NulPolicy.hasNul_eq_false_iff]
  intro member
  have zero : (0 : UInt8) ∈ Text.bytes cell := by
    rw [Text.bytes_eq_flatMap]
    exact List.mem_flatMap.mpr ⟨'\x00', member, by decide⟩
  rw [Text.bytes_of_ofBytes? read] at zero
  exact nonzero 0 zero rfl

/-- No encoding makes a NUL character of bytes none of which is zero. -/
theorem hasNul_decode? {encoding : Encoding} {content : Bytes} {cell : String}
    (nonzero : ∀ byte ∈ content, byte ≠ 0) (read : encoding.decode? content = some cell) :
    NulPolicy.hasNul cell = false := by
  have mapped {f : UInt8 → Char} (kept : ∀ {byte}, byte ≠ 0 → f byte ≠ '\x00') :
      NulPolicy.hasNul (String.ofList (content.map f)) = false := by
    rw [NulPolicy.hasNul_eq_false_iff, String.toList_ofList]
    intro member
    obtain ⟨byte, found, same⟩ := List.mem_map.mp member
    exact kept (nonzero byte found) same
  unfold decode? at read
  split at read
  · exact hasNul_ofBytes? nonzero read
  · cases read
    exact mapped windowsChar_ne_nul
  · obtain ⟨chars, decoded, rfl⟩ := Option.map_eq_some_iff.mp read
    obtain ⟨units, paired, decoded⟩ := Option.bind_eq_some_iff.mp decoded
    rw [NulPolicy.hasNul_eq_false_iff, String.toList_ofList]
    intro member
    exact charsOfUnits_ne_nul (units16_ne_zero nonzero _ paired) decoded _ member rfl
  · cases read
    exact mapped userDefinedChar_ne_nul
  · split at read <;> cases read
    rfl
  next charset _ =>
    exact NulPolicy.hasNul_eq_false_iff.mpr (charset.nulFree content cell read nonzero)

theorem nulFree_decodeRow {encoding : Encoding} {record : Record} {row : Row}
    (nonzero : ∀ field ∈ record, ∀ byte ∈ field, byte ≠ 0)
    (decoded : decodeRow encoding record = .ok row) : row.NulFree := by
  induction record generalizing row with
  | nil =>
    cases decoded
    simp [Row.NulFree]
  | cons field rest ih =>
    obtain ⟨first, others⟩ := List.forall_mem_cons.mp nonzero
    rw [decodeRow] at decoded
    split at decoded
    next => cases decoded
    next cell read =>
      obtain ⟨cells, later, rfl⟩ := Outcome.map_eq_ok_iff.mp decoded
      exact List.forall_mem_cons.mpr ⟨hasNul_decode? first read, ih others later⟩

end Encoding

end ResumableCsv
