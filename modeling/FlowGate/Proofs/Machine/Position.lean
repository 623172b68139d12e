import FlowGate.Checked.Tape

/-!
# The position of a tape

No request leads the position of a tape past the end of its data, and one that is refused leaves it
where it is. Nothing keeps the position from leading in front of the start, from where it counts
from the end: there a read may be granted and give fewer bytes than it asks for. A tape stays within
its data exactly as long as no read asks for a negative number of bytes and no move leads in front
of the start.

## Main definitions

* `TapeRequest.target` — the position that a request leads to
* `ValueTape.Throughout` — what holds of every request of a sequence that a tape is asked
* `ValueTape.IsServed` — what holds of any request, wherever the position is
* `ValueTape.StaysInside` — a position within the data, and a read that gives what it asks for
* `ValueTape.LeadsInside` — requests that do not lead in front of the start

## Main results

* `ValueTape.after_ofBytes` — a request changes nothing of a tape but its position
* `ValueTape.throughout_staysInside_iff` — when a tape stays within its data
-/

namespace FlowGate

/-- The part of a list between two positions within it has as many entries as lie between them. -/
theorem length_slice {α : Type} {xs : List α} {start stop : Int} (hstart : 0 ≤ start)
    (hle : start ≤ stop) (hstop : stop ≤ xs.length) :
    ((slice xs start stop).length : Int) = stop - start := by
  rw [slice, place, place, if_neg (by omega), if_neg (by omega), List.length_take,
    List.length_drop]
  omega

/-- The position that a request leads to among `length` bytes. A request that would pass the end is
refused, and leads nowhere. -/
def TapeRequest.target (length : Nat) (p : Int) : TapeRequest Int → Int
  | read size moves => if p + size ≤ length ∧ moves = true then p + size else p
  | move n => if p + n ≤ length then p + n else p
  | rewind => 0

theorem TapeRequest.target_le {length : Nat} {p : Int} (h : p ≤ length) (r : TapeRequest Int) :
    r.target length p ≤ length := by
  cases r with
  | read size moves => grind [target]
  | move n => grind [target]
  | rewind => exact Int.natCast_nonneg length

namespace ValueTape

variable {data : Bytes} {p : Int} {requests : List (TapeRequest Int)}

/-- Byte code with a whole position. -/
def ofBytes (data : Bytes) (p : Int) : ValueTape := ⟨.bytes data, .int p⟩

/-- The tape after a request, granted or refused. -/
def after (t : ValueTape) (r : TapeRequest Int) : ValueTape :=
  match serve (r.map .int) t with
  | .ok _ t => t
  | .error _ t => t

/-! ### Requests to byte code -/

theorem ofBytes_inj {q : Int} : ofBytes data p = ofBytes data q ↔ p = q := by
  simp [ofBytes]

theorem look_ofBytes (data : Bytes) (p size : Int) :
    (ofBytes data p).look (.int size) =
      if p + size ≤ data.length then .ok (.bytes (slice data p (p + size)))
      else .error (.execution .readPastEnd) := by
  refine (look_ofTape ⟨data.toArray, p⟩ size).trans ?_
  simp only [Tape.look, Tape.part_eq_slice, List.size_toArray]
  split <;> rfl

theorem move_ofBytes (data : Bytes) (p n : Int) :
    (ofBytes data p).move (.int n) =
      if p + n ≤ data.length then .ok (ofBytes data (p + n))
      else .error (.execution .movePastEnd) := by
  refine (move_ofTape ⟨data.toArray, p⟩ n).trans ?_
  simp only [Tape.move, List.size_toArray]
  split <;> rfl

/-- A read is refused if it would pass the end, and gives the bytes between two positions
otherwise. -/
theorem serve_read_ofBytes (data : Bytes) (p size : Int) (moves : Bool) :
    serve (.read (.int size) moves) (ofBytes data p) =
      if p + size ≤ data.length then
        .ok (.bytes (slice data p (p + size))) (ofBytes data (if moves then p + size else p))
      else .error (.execution .readPastEnd) (ofBytes data p) := by
  have hlook := look_ofBytes data p size
  by_cases hfits : p + size ≤ data.length
  · rw [if_pos hfits] at hlook ⊢
    cases moves with
    | false => simp [serve, lookAhead, hlook, bind, EStateM.bind, pure, EStateM.pure]
    | true => simp [serve_read_true, take, hlook, move_ofBytes, hfits]
  · rw [if_neg hfits] at hlook ⊢
    simp [serve, lookAhead, hlook, bind, EStateM.bind]

theorem serve_move_ofBytes (data : Bytes) (p n : Int) :
    serve (.move (.int n)) (ofBytes data p) =
      if p + n ≤ data.length then .ok (.int (p + n)) (ofBytes data (p + n))
      else .error (.execution .movePastEnd) (ofBytes data p) := by
  rw [serve, moveBy, move_ofBytes]
  by_cases hfits : p + n ≤ data.length <;> simp [hfits, ofBytes]

/-- A request changes nothing of a tape but its position. -/
theorem after_ofBytes (data : Bytes) (p : Int) (r : TapeRequest Int) :
    (ofBytes data p).after r = ofBytes data (r.target data.length p) := by
  cases r with
  | read size moves =>
    rw [after, TapeRequest.map, serve_read_ofBytes, TapeRequest.target]
    by_cases hfits : p + size ≤ data.length <;> simp [hfits]
  | move n =>
    rw [after, TapeRequest.map, serve_move_ofBytes, TapeRequest.target]
    by_cases hfits : p + n ≤ data.length <;> simp [hfits]
  | rewind => rfl

/-! ### Sequences of requests -/

/-- What holds of every request of a sequence, with the positions before and after it: the tape is
asked one request after the other, and goes on after a refusal. -/
def Throughout (data : Bytes) (P : Int → TapeRequest Int → Int → Prop) :
    Int → List (TapeRequest Int) → Prop
  | _, [] => True
  | p, r :: rs => ∃ q, (ofBytes data p).after r = ofBytes data q ∧ P p r q ∧ Throughout data P q rs

/-- What holds of a request from position `p` to position `q`, wherever these are: it does not lead
past the end, if refused it leaves the tape as it is, and a read gives the bytes between the two
positions that it asks for. -/
structure IsServed (data : Bytes) (p : Int) (r : TapeRequest Int) (q : Int) : Prop where
  le_length : q ≤ data.length
  eq_of_error : ∀ fault t, serve (r.map .int) (ofBytes data p) = .error fault t → t = ofBytes data p
  eq_slice : ∀ size moves reply t, r = .read size moves →
    serve (r.map .int) (ofBytes data p) = .ok reply t →
      reply = .bytes (slice data p (p + size))

/-- A request leads to a position within the data, and a read that is granted gives as many bytes as
it asks for. -/
structure StaysInside (data : Bytes) (p : Int) (r : TapeRequest Int) (q : Int) : Prop where
  nonneg : 0 ≤ q
  le_length : q ≤ data.length
  length_eq : ∀ size moves bytes t, r = .read size moves →
    serve (r.map .int) (ofBytes data p) = .ok (.bytes bytes) t → (bytes.length : Int) = size

/-- A request does not lead in front of the start: a read does not ask for a negative number of
bytes, and a move does not lead there from the position where it is asked. -/
def LeadsInside (p : Int) (r : TapeRequest Int) (_q : Int) : Prop :=
  match r with
  | .read size _ => 0 ≤ size
  | .move n => 0 ≤ p + n
  | .rewind => True

theorem throughout_nil {P : Int → TapeRequest Int → Int → Prop} : Throughout data P p [] := trivial

theorem throughout_cons {P : Int → TapeRequest Int → Int → Prop} {r : TapeRequest Int} :
    Throughout data P p (r :: requests) ↔
      P p r (r.target data.length p) ∧ Throughout data P (r.target data.length p) requests := by
  simp only [Throughout, after_ofBytes, ofBytes_inj, exists_eq_left']

theorem isServed_target (h : p ≤ data.length) (r : TapeRequest Int) :
    IsServed data p r (r.target data.length p) where
  le_length := TapeRequest.target_le h r
  eq_of_error fault t hserve := by
    cases r with
    | read size moves =>
      rw [TapeRequest.map, serve_read_ofBytes] at hserve
      split at hserve <;> cases hserve
      rfl
    | move n =>
      rw [TapeRequest.map, serve_move_ofBytes] at hserve
      split at hserve <;> cases hserve
      rfl
    | rewind => cases hserve
  eq_slice size moves reply t hr hserve := by
    rw [hr, TapeRequest.map, serve_read_ofBytes] at hserve
    split at hserve <;> cases hserve
    rfl

theorem throughout_isServed (h : p ≤ data.length) (requests : List (TapeRequest Int)) :
    Throughout data (IsServed data) p requests := by
  -- Wherever a request leads, that is not past the end.
  induction requests generalizing p with
  | nil => exact throughout_nil
  | cons r requests ih =>
    exact throughout_cons.mpr ⟨isServed_target h r, ih (TapeRequest.target_le h r)⟩

/-- A read from within the data stays there, and gives as many bytes as it asks for, if these are
not negatively many. -/
theorem staysInside_read_iff (hpos : 0 ≤ p) (hle : p ≤ data.length) (size : Int) (moves : Bool) :
    StaysInside data p (.read size moves) (TapeRequest.target data.length p (.read size moves)) ↔
      0 ≤ size := by
  constructor
  · intro h
    -- Otherwise the read would be granted, and the number of bytes that it gives negative.
    apply Int.not_lt.mp
    intro hnegative
    have hfits : p + size ≤ data.length := by omega
    have hlength := h.length_eq size moves _ _ rfl
      ((serve_read_ofBytes data p size moves).trans (if_pos hfits))
    omega
  · intro hsize
    refine ⟨?_, TapeRequest.target_le hle _, ?_⟩
    · rw [TapeRequest.target]
      split <;> omega
    · intro size' moves' bytes t hr hserve
      cases hr
      rw [TapeRequest.map, serve_read_ofBytes] at hserve
      split at hserve
      · next hfits =>
        cases hserve
        rw [length_slice hpos (by omega) hfits]
        omega
      · cases hserve

/-- A move from within the data stays there if it does not lead in front of the start. -/
theorem staysInside_move_iff (hpos : 0 ≤ p) (hle : p ≤ data.length) (n : Int) :
    StaysInside data p (.move n) (TapeRequest.target data.length p (.move n)) ↔ 0 ≤ p + n := by
  have hnonneg : 0 ≤ TapeRequest.target data.length p (.move n) ↔ 0 ≤ p + n := by
    rw [TapeRequest.target]
    split <;> omega
  rw [← hnonneg]
  exact ⟨StaysInside.nonneg, fun h =>
    ⟨h, TapeRequest.target_le hle _, fun _ _ _ _ hr => by cases hr⟩⟩

/-- From within the data a request stays there if it does not lead in front of the start. -/
theorem staysInside_target_iff (hpos : 0 ≤ p) (hle : p ≤ data.length) (r : TapeRequest Int) :
    StaysInside data p r (r.target data.length p) ↔ LeadsInside p r (r.target data.length p) := by
  cases r with
  | read size moves => exact staysInside_read_iff hpos hle size moves
  | move n => exact staysInside_move_iff hpos hle n
  | rewind =>
    have hstart : StaysInside data p .rewind 0 :=
      ⟨Int.le_refl 0, Int.natCast_nonneg _, fun _ _ _ _ hr => by cases hr⟩
    exact iff_of_true hstart trivial

theorem throughout_staysInside_iff_leadsInside (hpos : 0 ≤ p) (hle : p ≤ data.length) :
    Throughout data (StaysInside data) p requests ↔ Throughout data LeadsInside p requests := by
  -- As long as the tape stays within its data, the next request starts from there.
  induction requests generalizing p with
  | nil => exact Iff.rfl
  | cons r requests ih =>
    rw [throughout_cons, throughout_cons, ← staysInside_target_iff hpos hle r]
    exact and_congr_right fun h => ih h.nonneg h.le_length

/-- Whatever a tape is asked, one request after the other, its position never passes the end of the
data, a refused request leaves the tape as it is, and a read gives the bytes between the two
positions that it asks for. The position stays within the data, and every read that is granted gives
as many bytes as it asks for, exactly if no read asks for a negative number of bytes and no move
leads in front of the start. -/
theorem throughout_staysInside_iff (data : Bytes) (requests : List (TapeRequest Int)) :
    Throughout data (IsServed data) 0 requests ∧
      (Throughout data (StaysInside data) 0 requests ↔ Throughout data LeadsInside 0 requests) :=
  have hle : (0 : Int) ≤ data.length := Int.natCast_nonneg _
  ⟨throughout_isServed hle requests, throughout_staysInside_iff_leadsInside (Int.le_refl 0) hle⟩

/-- From the end of two bytes a tape can be moved back to the start. Moved in front of it, the tape
grants a read of three bytes and gives one. -/
theorem throughout_staysInside_iff_sample :
    Throughout [0x61, 0x62] (StaysInside [0x61, 0x62]) 0 [.read 2 true, .move (-2), .read 1 false] ∧
      ¬ Throughout [0x61, 0x62] (StaysInside [0x61, 0x62]) 0 [.move (-1), .read 3 true] ∧
      serve (.read (.int 3) true) (ofBytes [0x61, 0x62] (-1)) =
        .ok (.bytes [0x62]) (ofBytes [0x61, 0x62] 2) := by
  have hback : Throughout [0x61, 0x62] LeadsInside 0 [.read 2 true, .move (-2), .read 1 false] := by
    simp [throughout_cons, throughout_nil, LeadsInside, TapeRequest.target]
  have hfront : ¬ Throughout [0x61, 0x62] LeadsInside 0 [.move (-1), .read 3 true] := by
    simp [throughout_cons, LeadsInside]
  exact ⟨(throughout_staysInside_iff _ _).2.mpr hback,
    mt (throughout_staysInside_iff _ _).2.mp hfront, rfl⟩

end ValueTape

end FlowGate
