import Mathlib.Algebra.Group.Nat.Defs
import ResumableCsv.Gzip.Basic

/-!
Packed content is unpacked again: the stored blocks of a member are read one after the other, up to
the last, and the checksum and the length behind them agree with what was read.
-/

namespace ResumableCsv.Gzip

theorem length_littleEndian (count n : Nat) : (littleEndian count n).length = count := by
  induction count generalizing n with
  | zero => rfl
  | succ count ih => rw [littleEndian, List.length_cons, ih]

/-- Reading a word back leaves what fits into its bytes. -/
theorem ofLittleEndian_littleEndian (count n : Nat) :
    ofLittleEndian (littleEndian count n) = n % 256 ^ count := by
  induction count generalizing n with
  | zero => simp [littleEndian, ofLittleEndian, Nat.mod_one]
  | succ count ih =>
    have byte : (UInt8.ofNat (n % 256)).toNat = n % 256 :=
      UInt8.toNat_ofNat_of_lt (Nat.mod_lt n (by decide))
    rw [littleEndian, ofLittleEndian, ih, byte, Nat.pow_succ', Nat.mod_mul]

theorem littleEndian_two (n : Nat) : ∃ low high, littleEndian 2 n = [low, high] :=
  ⟨_, _, rfl⟩

/-- The first byte of a stored block says whether it is the last one. -/
theorem number_stored (last : Bool) (rest : Bytes) :
    ∃ held, BitSource.number 3 ⟨[], UInt8.ofNat last.toNat :: rest⟩ =
      .ok (last.toNat, ⟨held, rest⟩) := by
  cases last with
  | false => exact ⟨_, rfl⟩
  | true => exact ⟨_, rfl⟩

theorem inflateStored_block {content : Bytes} (short : content.length ≤ 0xFFFF)
    (output : Array UInt8) (held : List Bool) (rest : Bytes) :
    inflateStored output ⟨held, littleEndian 2 content.length ++
        littleEndian 2 (0xFFFF - content.length) ++ content ++ rest⟩ =
      (output ++ content.toArray, .ok ⟨[], rest⟩) := by
  obtain ⟨a, b, size⟩ := littleEndian_two content.length
  obtain ⟨c, d, complement⟩ := littleEndian_two (0xFFFF - content.length)
  have length : ofLittleEndian [a, b] = content.length := by
    rw [← size, ofLittleEndian_littleEndian, Nat.mod_eq_of_lt (by omega)]
  have other : ofLittleEndian [c, d] = 0xFFFF - content.length := by
    rw [← complement, ofLittleEndian_littleEndian, Nat.mod_eq_of_lt (by omega)]
  have whole : content.length + (0xFFFF - content.length) = 0xFFFF := by omega
  simp [inflateStored, BitSource.align, size, complement, length, other, whole]

/-- One block is read, and then the reading stops or goes on. -/
theorem inflateBlocks_storedBlock (last : Bool) {content : Bytes}
    (short : content.length ≤ 0xFFFF) (bits : Nat) (output : Array UInt8) (rest : Bytes) :
    inflateBlocks (bits + 1) output ⟨[], storedBlock last content ++ rest⟩ =
      if last then (output ++ content.toArray, .ok ⟨[], rest⟩)
      else inflateBlocks bits (output ++ content.toArray) ⟨[], rest⟩ := by
  obtain ⟨held, header⟩ := number_stored last (littleEndian 2 content.length ++
    littleEndian 2 (0xFFFF - content.length) ++ content ++ rest)
  have stored := inflateStored_block short output held rest
  rw [storedBlock, List.cons_append, inflateBlocks, header]
  cases last with
  | false => simp only [Bool.toNat_false, Nat.zero_div, inflateBlock, stored]; rfl
  | true => simp only [Bool.toNat_true, Nat.reduceDiv, inflateBlock, stored, if_true]

/-- Every block but the last takes bytes off the content, so their number bounds the blocks. -/
theorem inflateBlocks_storedBlocks (content : Bytes) {bits : Nat} (enough : content.length < bits)
    (output : Array UInt8) (rest : Bytes) :
    inflateBlocks bits output ⟨[], storedBlocks content ++ rest⟩ =
      (output ++ content.toArray, .ok ⟨[], rest⟩) := by
  obtain ⟨bits, rfl⟩ : ∃ fewer, bits = fewer + 1 := ⟨bits - 1, by omega⟩
  induction content using storedBlocks.induct generalizing bits output with
  | case1 content long ih =>
    have short : (content.take 0xFFFF).length ≤ 0xFFFF := List.length_take_le _ _
    have fewer : (content.drop 0xFFFF).length < bits := by
      rw [List.length_drop]
      omega
    have joined : output ++ (content.take 0xFFFF).toArray ++ (content.drop 0xFFFF).toArray =
        output ++ content.toArray := by
      rw [Array.append_assoc, List.append_toArray (content.take 0xFFFF), List.take_append_drop]
    obtain ⟨bits, rfl⟩ : ∃ fewer, bits = fewer + 1 := ⟨bits - 1, by omega⟩
    rw [storedBlocks, dif_pos long, List.append_assoc, inflateBlocks_storedBlock false short,
      if_neg Bool.false_ne_true, ih _ _ fewer, joined]
  | case2 content fits =>
    rw [storedBlocks, dif_neg fits, inflateBlocks_storedBlock true (Nat.le_of_not_lt fits),
      if_pos rfl]

theorem length_le_storedBlocks (content : Bytes) :
    content.length ≤ (storedBlocks content).length := by
  induction content using storedBlocks.induct with
  | case1 content long ih =>
    rw [List.length_drop] at ih
    rw [storedBlocks, dif_pos long]
    simp only [storedBlock, List.length_append, List.length_cons, List.length_take]
    omega
  | case2 content fits =>
    rw [storedBlocks, dif_neg fits]
    simp only [storedBlock, List.length_append, List.length_cons]
    omega

theorem inflate_storedBlocks (content trailer : Bytes) :
    inflate (storedBlocks content ++ trailer) = (content, .ok trailer) := by
  have enough : content.length < 8 * (storedBlocks content ++ trailer).length + 1 := by
    have bound := length_le_storedBlocks content
    rw [List.length_append]
    omega
  rw [inflate, inflateBlocks_storedBlocks content enough, Array.empty_append]

/-- What was packed is unpacked again. -/
theorem decode_encode (content : Bytes) : decode (encode content) = ⟨content, none⟩ := by
  let sum := littleEndian 4 (checksum content).toNat
  let length := littleEndian 4 content.length
  have header : dropHeader (encode content) =
      .ok (storedBlocks content ++ (sum ++ length)) := by
    rw [encode, List.append_assoc, List.append_assoc]
    rfl
  have sum_length : sum.length = 4 := length_littleEndian _ _
  have length_length : length.length = 4 := length_littleEndian _ _
  have same_sum : ofLittleEndian ((sum ++ length).take 4) = (checksum content).toNat := by
    rw [List.take_left' sum_length, ofLittleEndian_littleEndian]
    exact Nat.mod_eq_of_lt (checksum content).toNat_lt
  have same_length : ofLittleEndian (((sum ++ length).drop 4).take 4) =
      content.length % UInt32.size := by
    rw [List.drop_left' sum_length, List.take_of_length_le (Nat.le_of_eq length_length),
      ofLittleEndian_littleEndian, show 256 ^ 4 = UInt32.size from rfl]
  have nothing : (sum ++ length).drop 8 = [] := by
    simp [sum_length, length_length]
  have whole : ¬(sum ++ length).length < 8 := by simp [sum_length, length_length]
  simp only [decode, decodeMembers, header, inflate_storedBlocks, whole, same_sum, same_length,
    nothing, ne_eq, not_true, or_self, if_false, List.isEmpty_nil, if_true]

end ResumableCsv.Gzip
