import FlowGate.Checked.Codec
import FlowGate.Proofs.Bytes.Basic
import Mathlib.Data.List.Induction

/-!
# Pairing nibbles

An even number of nibbles is always the nibbles of a byte string, so what pairing succeeds on is
exactly what splitting gives. This also holds for values of any kind, of which only the integers
below sixteen are nibbles.

## Main results

* `Bytes.exists_toNibbles_eq` — every even number of nibbles comes from a byte string
* `Checked.nibble_eq_ok_iff`, `Checked.mapM_nibble_eq_ok_iff` — which values are nibbles
* `Checked.ofNibbles_list_eq_ok_iff` — the values that are paired to a byte string are its nibbles
* `Checked.exists_ofNibbles_list_iff` — when values can be paired
-/

namespace FlowGate

namespace Bytes

/-- The byte of two nibbles has these for its halves. -/
theorem halves_ofNat {high low : Nat} (hhigh : high < 16) (hlow : low < 16) :
    (UInt8.ofNat (16 * high + low)).toNat / 16 = high ∧
      (UInt8.ofNat (16 * high + low)).toNat % 16 = low := by
  rw [UInt8.toNat_ofNat']
  omega

/-- Every even number of nibbles comes from a byte string. -/
theorem exists_toNibbles_eq {nibbles : List Nat} (heven : nibbles.length % 2 = 0)
    (hlt : ∀ n ∈ nibbles, n < 16) : ∃ bs : Bytes, bs.toNibbles = nibbles := by
  -- The induction takes two nibbles at a time, those of one byte.
  induction nibbles using List.twoStepInduction with
  | nil => exact ⟨[], rfl⟩
  | singleton n => cases heven
  | cons_cons high low rest ih _ =>
    rw [List.forall_mem_cons, List.forall_mem_cons] at hlt
    simp only [List.length_cons] at heven
    obtain ⟨bs, hbs⟩ := ih (by omega) hlt.2.2
    obtain ⟨hhigh, hlow⟩ := halves_ofNat hlt.1 hlt.2.1
    exact ⟨UInt8.ofNat (16 * high + low) :: bs, by rw [toNibbles_cons, hhigh, hlow, hbs]⟩

end Bytes

namespace Checked

/-- A value is a nibble if it is an integer of its range. -/
theorem nibble_eq_ok_iff {v : Value} {n : Nat} : nibble v = .ok n ↔ v = .int n ∧ n < 16 := by
  cases v with
  | int i =>
    change (ensure (0 ≤ i && i ≤ 15) _ >>= fun _ => .ok i.toNat) = _ ↔ _
    rw [ensure_bind_eq_ok_iff, Bool.and_eq_true, decide_eq_true_eq, decide_eq_true_eq,
      Except.ok.injEq, Value.int.injEq]
    omega
  | _ => simp [nibble, Value.toInt, bind, Except.bind]

/-- Values are nibbles if each of them is an integer of the range. -/
theorem mapM_nibble_eq_ok_iff {values : List Value} {nibbles : List Nat} :
    values.mapM nibble = .ok nibbles ↔
      values = nibbles.map (fun n : Nat => .int n) ∧ ∀ n ∈ nibbles, n < 16 := by
  induction values generalizing nibbles with
  | nil => cases nibbles <;> simp [pure, Except.pure]
  | cons v values ih =>
    simp only [List.mapM_cons, bind_ok_iff, nibble_eq_ok_iff, ih]
    constructor
    · rintro ⟨n, ⟨rfl, hn⟩, rest, ⟨rfl, hrest⟩, hcons⟩
      obtain rfl := Except.ok.inj hcons
      exact ⟨rfl, List.forall_mem_cons.mpr ⟨hn, hrest⟩⟩
    · rintro ⟨hvalues, hlt⟩
      cases nibbles with
      | nil => cases hvalues
      | cons n rest =>
        obtain ⟨rfl, rfl⟩ := List.cons.inj hvalues
        obtain ⟨hn, hrest⟩ := List.forall_mem_cons.mp hlt
        exact ⟨n, ⟨rfl, hn⟩, rest, ⟨rfl, hrest⟩, rfl⟩

theorem toNibbles_bytes (data : Bytes) : toNibbles (.bytes data) = .ok data.toNibbles := rfl

/-- The values that are paired to a byte string are its nibbles. -/
theorem ofNibbles_list_eq_ok_iff {values : List Value} {data : Bytes} :
    ofNibbles (.list values) = .ok data ↔
      values = data.toNibbles.map fun n : Nat => .int n := by
  change (ensure (values.length % 2 == 0) _ >>= fun _ => values.mapM nibble >>= _) = _ ↔ _
  rw [ensure_bind_eq_ok_iff, beq_iff_eq, bind_ok_iff]
  constructor
  · rintro ⟨heven, nibbles, hnibbles, hpairs⟩
    obtain ⟨rfl, hlt⟩ := mapM_nibble_eq_ok_iff.mp hnibbles
    rw [List.length_map] at heven
    obtain ⟨bs, rfl⟩ := Bytes.exists_toNibbles_eq heven hlt
    rw [Bytes.ofNibbles?_toNibbles] at hpairs
    rw [Except.ok.inj hpairs]
  · rintro rfl
    refine ⟨?_, data.toNibbles, mapM_nibble_eq_ok_iff.mpr ⟨rfl, fun n => ?_⟩, ?_⟩
    · rw [List.length_map, Bytes.length_toNibbles, Nat.mul_mod_right]
    · exact Bytes.lt_of_mem_toNibbles
    · rw [Bytes.ofNibbles?_toNibbles]
      rfl

/-- Values can be paired if their number is even and all of them are integers between 0 and 15. -/
theorem exists_ofNibbles_list_iff {values : List Value} :
    (∃ data, ofNibbles (.list values) = .ok data) ↔
      values.length % 2 = 0 ∧ ∀ v ∈ values, ∃ n : Int, v = .int n ∧ 0 ≤ n ∧ n ≤ 15 := by
  constructor
  · rintro ⟨data, hdata⟩
    obtain rfl := ofNibbles_list_eq_ok_iff.mp hdata
    refine ⟨by rw [List.length_map, Bytes.length_toNibbles, Nat.mul_mod_right], fun v hv => ?_⟩
    obtain ⟨n, hn, rfl⟩ := List.mem_map.mp hv
    have hlt := Bytes.lt_of_mem_toNibbles hn
    exact ⟨n, rfl, by omega, by omega⟩
  · rintro ⟨heven, hvalues⟩
    cases hall : values.mapM nibble with
    | error fault =>
      -- Then one of the values would be no nibble.
      obtain ⟨before, v, after, rfl, -, hv⟩ := mapM_eq_error_iff.mp hall
      obtain ⟨n, rfl, hpos, hle⟩ := hvalues v (by simp)
      obtain ⟨k, rfl⟩ := Int.eq_ofNat_of_zero_le hpos
      rw [nibble_eq_ok_iff.mpr ⟨rfl, by omega⟩] at hv
      cases hv
    | ok nibbles =>
      obtain ⟨rfl, hlt⟩ := mapM_nibble_eq_ok_iff.mp hall
      rw [List.length_map] at heven
      obtain ⟨data, rfl⟩ := Bytes.exists_toNibbles_eq heven hlt
      exact ⟨data, ofNibbles_list_eq_ok_iff.mpr rfl⟩

end Checked

end FlowGate
