import LoaderBench.Text.Hexadecimal

/-!
# Hexadecimal texts are read back

A byte string is told by two digits for each byte, in order, and reading them gives the bytes again.
-/

namespace LoaderBench.Text

theorem hexPair_eq (b : UInt8) :
    hexPair b = [(b.toNat / 16).digitChar, (b.toNat % 16).digitChar] := by
  have hall : ∀ n < 256, (Nat.toDigits 16 n).leftpad 2 '0' =
      [(n / 16).digitChar, (n % 16).digitChar] := by decide +kernel
  exact hall b.toNat b.toNat_lt

theorem hexValue?_digitChar {n : Nat} (hn : n < 16) : hexValue? n.digitChar = some n := by
  have hall : ∀ n < 16, hexValue? n.digitChar = some n := by decide
  exact hall n hn

theorem toList_hexText (bytes : Bytes) : (hexText bytes).toList = bytes.flatMap hexPair :=
  String.toList_ofList

theorem length_hexText (bytes : Bytes) : (hexText bytes).toList.length = 2 * bytes.length := by
  rw [toList_hexText]
  induction bytes with
  | nil => rfl
  | cons b bytes ih =>
    rw [List.flatMap_cons, List.length_append, ih, hexPair_eq, List.length_cons, List.length_cons,
      List.length_cons, List.length_nil]
    omega

theorem isSome_hexValue? {bytes : Bytes} {c : Char} (hc : c ∈ (hexText bytes).toList) :
    (hexValue? c).isSome := by
  rw [toList_hexText] at hc
  obtain ⟨b, -, hc⟩ := List.mem_flatMap.mp hc
  have hlt : b.toNat < 256 := b.toNat_lt
  have hdigit : ∃ n < 16, c = n.digitChar := by
    rw [hexPair_eq] at hc
    rcases List.mem_cons.mp hc with rfl | hc
    · exact ⟨b.toNat / 16, by omega, rfl⟩
    · exact ⟨b.toNat % 16, by omega, List.mem_singleton.mp hc⟩
  obtain ⟨n, hn, rfl⟩ := hdigit
  rw [hexValue?_digitChar hn]
  rfl

theorem hexBytes?_hexText (bytes : Bytes) : hexBytes? (hexText bytes).toList = some bytes := by
  rw [toList_hexText]
  induction bytes with
  | nil => rfl
  | cons b bytes ih =>
    have hlt : b.toNat < 256 := b.toNat_lt
    have hhigh := hexValue?_digitChar (n := b.toNat / 16) (by omega)
    have hlow := hexValue?_digitChar (n := b.toNat % 16) (by omega)
    have hvalue : b.toNat / 16 * 16 + b.toNat % 16 = b.toNat := by omega
    simp only [List.flatMap_cons, hexPair_eq, List.cons_append, List.nil_append, hexBytes?, hhigh,
      hlow, ih, bind, Option.bind, hvalue, UInt8.ofNat_toNat]

end LoaderBench.Text
