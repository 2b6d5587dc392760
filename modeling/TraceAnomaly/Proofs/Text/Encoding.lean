import Mathlib.Tactic.SplitIfs
import TraceAnomaly.Text.Lines

/-! Text and its bytes in UTF-8. Each character is encoded on its own, those of ASCII as one byte each and the
others as bytes that are no character of ASCII, and decoding what was encoded gives the text back. -/

namespace TraceAnomaly.Text

theorem toList_loop_eq (bs : ByteArray) (i : Nat) (r : List UInt8) :
    ByteArray.toList.loop bs i r = r.reverse ++ bs.data.toList.drop i := by
  fun_induction ByteArray.toList.loop bs i r with
  | case1 i r h ih =>
    have hi : i < bs.data.toList.length := by simpa using h
    have hget : bs.get! i = bs.data.toList[i] := getElem!_pos bs.data i h
    rw [ih, List.reverse_cons, List.append_assoc, List.singleton_append, List.drop_eq_getElem_cons hi, hget]
  | case2 i r h =>
    rw [List.drop_eq_nil_of_le (by simpa using h), List.append_nil]

theorem toList_eq (bs : ByteArray) : bs.toList = bs.data.toList := toList_loop_eq bs 0 []

/-- The bytes of a text are those of its characters. -/
theorem encode_eq (cs : List Char) : encode cs = cs.flatMap String.utf8EncodeChar := by
  rw [encode, String.toUTF8, String.toByteArray_ofList, toList_eq, List.utf8Encode,
    List.toList_data_toByteArray]

theorem encode_nil : encode [] = [] := encode_eq []

theorem encode_cons (c : Char) (cs : List Char) : encode (c :: cs) = String.utf8EncodeChar c ++ encode cs := by
  simp only [encode_eq, List.flatMap_cons]

theorem utf8EncodeChar_of_lt {c : Char} (h : c.toNat < 128) : String.utf8EncodeChar c = [c.toUInt8] :=
  String.utf8EncodeChar_eq_singleton (Char.utf8Size_eq_one_iff.2 (Nat.le_of_lt_succ h))

theorem le_of_mem_utf8EncodeChar {c : Char} (h : 128 ≤ c.toNat) :
    ∀ b ∈ String.utf8EncodeChar c, 128 ≤ b.toNat := by
  have hbyte : ∀ n, 128 ≤ n % 256 → 128 ≤ (UInt8.ofNat n).toNat := fun n hn => by rwa [UInt8.toNat_ofNat']
  have hc : ¬ c.val.toNat ≤ 127 := Nat.not_le_of_lt h
  simp only [String.utf8EncodeChar, if_neg hc]
  split_ifs
  all_goals simp only [List.forall_mem_cons, List.not_mem_nil, false_implies, implies_true, and_true]
  · exact ⟨hbyte _ (by omega), hbyte _ (by omega)⟩
  · exact ⟨hbyte _ (by omega), hbyte _ (by omega), hbyte _ (by omega)⟩
  · exact ⟨hbyte _ (by omega), hbyte _ (by omega), hbyte _ (by omega), hbyte _ (by omega)⟩

theorem utf8EncodeChar_ne_nil (c : Char) : String.utf8EncodeChar c ≠ [] := by
  rw [Ne, ← List.length_eq_zero_iff, String.length_utf8EncodeChar]
  exact Nat.ne_of_gt c.utf8Size_pos

theorem encode_append (cs ds : List Char) : encode (cs ++ ds) = encode cs ++ encode ds := by
  simp only [encode_eq, List.flatMap_append]

theorem decode_encode (cs : List Char) : decode (encode cs) = some cs := by
  have hbytes : (⟨(encode cs).toArray⟩ : ByteArray) = (String.ofList cs).toByteArray := by
    rw [encode, String.toUTF8, toList_eq]
  have hvalid : ByteArray.IsValidUTF8 ⟨(encode cs).toArray⟩ := hbytes ▸ (String.ofList cs).isValidUTF8
  have hread : String.fromUTF8? ⟨(encode cs).toArray⟩ = some (String.ofList cs) := by
    rw [String.fromUTF8?, dif_pos hvalid]
    exact congrArg some (String.toByteArray_inj.1 hbytes)
  rw [decode, hread, Option.map_some, String.toList_ofList]

end TraceAnomaly.Text
