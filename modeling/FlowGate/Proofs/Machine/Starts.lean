import FlowGate.Proofs.Assembly.StandardTable
import FlowGate.Proofs.Machine.Loop

/-!
# Where instructions start

The machine and the disassembler go through byte code one instruction after the other, each in its
own way. This file compares the positions at which they take opcodes. The disassembler takes all of
them up to an instruction that is cut off; the machine takes the same ones in the same order until
an operation fails.

## Main definitions

* `Instruction.starts` — the positions at which the disassembler starts a line, with the opcodes

## Main results

* `Instruction.mem_starts_iff` — a line starts behind every front part of whole instructions
* `Instruction.pairwise_starts` — the starts come in the order of their positions
* `Instruction.map_starts_eq` — byte code of whole instructions has one start for each
* `Machine.Loops.fetches` — the machine fetches opcodes where lines start
* `runScript_fetches_starts` — this for a script under the standard opcode table
-/

namespace FlowGate

/-! ### The disassembler -/

namespace Instruction

variable {t : OpTable} {size : Nat}

/-- The position of an opcode with what follows it at the end of byte code of the given size, and
the opcode. -/
def startAt (size : Nat) (lead : UInt8) (rest : Bytes) : Int × Nat :=
  ((size : Int) - (lead :: rest).length, lead.toNat)

/-- Where lines start in the last part of byte code of the given size, with the opcodes there. An
instruction that is cut off starts a line as well, the last one. -/
def startsIn (t : OpTable) (size : Nat) (code : Bytes) : List (Int × Nat) :=
  match code with
  | [] => []
  | lead :: rest =>
    match _h : (operandAfter t lead).split? rest with
    | none => [startAt size lead rest]
    | some (_, behind) => startAt size lead rest :: startsIn t size behind
termination_by code.length
decreasing_by
  simp only [List.length_cons]
  exact Nat.lt_succ_of_le (Operand.length_le_of_split? _h)

/-- The positions at which the disassembler starts a line, with the opcodes there: `mem_starts_iff`
says which these are, and `pairwise_starts` in which order they come. -/
def starts (t : OpTable) (code : Bytes) : List (Int × Nat) := startsIn t code.length code

@[simp] theorem startsIn_nil : startsIn t size [] = [] := by
  rw [startsIn]

theorem startsIn_cons_of_some (size : Nat) {lead : UInt8} {code data rest : Bytes}
    (h : (operandAfter t lead).split? code = some (data, rest)) :
    startsIn t size (lead :: code) = startAt size lead code :: startsIn t size rest := by
  rw [startsIn]
  split
  · next h' => rw [h] at h'; cases h'
  · next h' => rw [h] at h'; cases h'; rfl

theorem startsIn_cons_of_none (size : Nat) {lead : UInt8} {code : Bytes}
    (h : (operandAfter t lead).split? code = none) :
    startsIn t size (lead :: code) = [startAt size lead code] := by
  rw [startsIn]
  split
  · rfl
  · next h' => rw [h] at h'; cases h'

theorem exists_startsIn_cons (t : OpTable) (size : Nat) (lead : UInt8) (code : Bytes) :
    ∃ behind, startsIn t size (lead :: code) = startAt size lead code :: behind := by
  cases hsplit : (operandAfter t lead).split? code with
  | none => exact ⟨[], startsIn_cons_of_none size hsplit⟩
  | some taken => exact ⟨startsIn t size taken.2, startsIn_cons_of_some size hsplit⟩

/-- Whole instructions have one start each, and the starts behind them follow. -/
theorem map_startsIn_append (size : Nat) {whole : Bytes} {instructions : List Instruction}
    (h : cut t whole = .ok instructions) (rest : Bytes) :
    ∃ front, startsIn t size (whole ++ rest) = front ++ startsIn t size rest ∧
      front.map Prod.snd = instructions.map fun i => i.lead.toNat := by
  -- Instruction by instruction, as the byte code is cut.
  fun_induction cut t whole generalizing instructions with
  | case1 =>
    obtain rfl := Except.ok.inj h
    exact ⟨[], rfl, rfl⟩
  | case2 lead code hsplit => cases h
  | case3 lead code data others hsplit ih =>
    obtain ⟨behind, hbehind, hcons⟩ := bind_ok_iff.mp h
    obtain rfl : ⟨lead, data⟩ :: behind = instructions := Except.ok.inj hcons
    obtain ⟨front, hfront, hleads⟩ := ih hbehind
    have hwhole := startsIn_cons_of_some size (Operand.split?_append hsplit rest)
    refine ⟨startAt size lead (code ++ rest) :: front, ?_, ?_⟩
    · rw [List.cons_append, hwhole, hfront, List.cons_append]
    · rw [List.map_cons, List.map_cons, hleads]
      rfl

/-- Byte code of whole instructions has one start for each of them. -/
theorem map_starts_eq {code : Bytes} {instructions : List Instruction}
    (h : cut t code = .ok instructions) :
    (starts t code).map Prod.snd = instructions.map fun i => i.lead.toNat := by
  obtain ⟨front, hfront, hleads⟩ := map_startsIn_append code.length h []
  rw [List.append_nil, startsIn_nil, List.append_nil] at hfront
  rw [starts, hfront, hleads]

theorem mem_startsIn_iff {code : Bytes} {start : Int × Nat} :
    start ∈ startsIn t size code ↔ ∃ whole instructions lead rest, code = whole ++ lead :: rest ∧
      cut t whole = .ok instructions ∧ start = startAt size lead rest := by
  constructor
  · intro h
    -- The start is the first one, or one behind the first instruction, which goes in front then.
    fun_induction startsIn t size code with
    | case1 => cases h
    | case2 lead rest hsplit =>
      obtain rfl := List.mem_singleton.mp h
      exact ⟨[], [], lead, rest, rfl, cut_nil, rfl⟩
    | case3 lead code data rest hsplit ih =>
      rcases List.mem_cons.mp h with rfl | hrest
      · exact ⟨[], [], lead, code, rfl, cut_nil, rfl⟩
      · obtain ⟨whole, instructions, next, behind, rfl, hcut, rfl⟩ := ih hrest
        obtain ⟨hfits, hbytes⟩ := Operand.split?_eq_some_iff.mp hsplit
        have hfirst : Instruction.Fits t ⟨lead, data⟩ := hfits
        refine ⟨Instruction.code t ⟨lead, data⟩ ++ whole, ⟨lead, data⟩ :: instructions, next,
          behind, ?_, ?_, rfl⟩
        · rw [← hbytes]
          exact congrArg (lead :: ·) (List.append_assoc _ _ _).symm
        · rw [cut_append (cut_code hfirst), hcut]
          rfl
  · rintro ⟨whole, instructions, lead, rest, rfl, hcut, rfl⟩
    obtain ⟨front, hfront, -⟩ := map_startsIn_append size hcut (lead :: rest)
    obtain ⟨behind, hbehind⟩ := exists_startsIn_cons t size lead rest
    rw [hfront, hbehind]
    exact List.mem_append_right front List.mem_cons_self

/-- A line starts behind every front part that consists of whole instructions. -/
theorem mem_starts_iff {code : Bytes} {start : Int × Nat} :
    start ∈ starts t code ↔ ∃ whole instructions lead rest, code = whole ++ lead :: rest ∧
      cut t whole = .ok instructions ∧ start = ((whole.length : Int), lead.toNat) := by
  rw [starts, mem_startsIn_iff]
  -- A position that is counted from the end is the length of the front part.
  have hposition : ∀ {whole rest : Bytes} {lead : UInt8}, code = whole ++ lead :: rest →
      startAt code.length lead rest = ((whole.length : Int), lead.toNat) := by
    rintro whole rest lead rfl
    rw [startAt, List.length_append]
    exact Prod.ext (by simp only; omega) rfl
  constructor
  · rintro ⟨whole, instructions, lead, rest, hcode, hcut, rfl⟩
    exact ⟨whole, instructions, lead, rest, hcode, hcut, by rw [hposition hcode]⟩
  · rintro ⟨whole, instructions, lead, rest, hcode, hcut, rfl⟩
    exact ⟨whole, instructions, lead, rest, hcode, hcut, by rw [hposition hcode]⟩

theorem le_of_mem_startsIn {code : Bytes} {start : Int × Nat} (h : start ∈ startsIn t size code) :
    (size - code.length : Int) ≤ start.1 := by
  obtain ⟨whole, -, lead, rest, rfl, -, rfl⟩ := mem_startsIn_iff.mp h
  rw [startAt, List.length_append]
  simp only
  omega

/-- The starts come in the order of their positions. -/
theorem pairwise_starts (t : OpTable) (code : Bytes) :
    (starts t code).Pairwise fun start other => start.1 < other.1 := by
  rw [starts]
  generalize code.length = size
  fun_induction startsIn t size code with
  | case1 => exact .nil
  | case2 lead rest hsplit => exact List.pairwise_singleton _ _
  | case3 lead code data rest hsplit ih =>
    refine List.pairwise_cons.mpr ⟨fun start hstart => ?_, ih⟩
    have hle := le_of_mem_startsIn hstart
    have hrest := Operand.length_le_of_split? hsplit
    rw [startAt]
    simp only [List.length_cons]
    omega

end Instruction

/-! ### The machine -/

theorem Exec.TapeFree.tape_eq {α : Type} {x : Exec α} (hx : x.TapeFree) {m n : Machine} {a : α}
    (h : x m = .ok a n) : n.tape = m.tape := by
  have hsame : x m = atTape m.tape (x m) := hx m m.tape
  rw [h, atTape] at hsame
  injection hsame with _ hn
  rw [hn]

namespace Machine

variable {p : Primitives} {t : OpTable} {m : Machine} {code rest : Bytes} {lead : UInt8}

/-- What is fetched is the first byte ahead, at the position that is as far from the end. -/
theorem fetch_eq (h : m.tape.Ahead (lead :: rest)) :
    m.fetch = Instruction.startAt m.tape.data.size lead rest := by
  have hsize := h.size_eq
  obtain ⟨tape, -, hread⟩ := h.exists_read_eq (Nat.le_add_left 1 rest.length)
  obtain ⟨-, hslice, -⟩ := Tape.read_eq_ok_iff.mp hread
  rw [← Tape.part_eq_slice, List.take_succ_cons, List.take_zero] at hslice
  rw [fetch, Instruction.startAt]
  refine Prod.ext ?_ ?_
  · change m.tape.pointer = m.tape.data.size - (lead :: rest).length
    omega
  · change Bytes.toNat (m.tape.part m.tape.pointer (m.tape.pointer + (1 : Nat))) = lead.toNat
    rw [← hslice, Bytes.toNat_singleton]

/-- The machine fetches opcodes where lines start, and all of them if it does not fail. -/
theorem Loops.fetches (ht : t.Aligned) {visited : List Machine} {outcome : Outcome}
    (h : Loops p t m visited outcome) (hahead : m.tape.Ahead code) :
    visited.map fetch <+: Instruction.startsIn t m.tape.data.size code ∧
      ∀ n, outcome = .ok () n →
        visited.map fetch = Instruction.startsIn t m.tape.data.size code := by
  -- The induction is on the loop. What lies ahead decides where the next opcode is fetched.
  induction h generalizing code with
  | done hdone =>
    obtain rfl := hahead.isDone_iff.mp hdone
    exact ⟨List.nil_prefix, fun _ _ => by rw [Instruction.startsIn_nil, List.map_nil]⟩
  | @fault m n fault hgoes hstep =>
    cases code with
    | nil => exact absurd (hahead.isDone_iff.mpr rfl) (Bool.eq_false_iff.mp hgoes)
    | cons lead rest =>
      obtain ⟨behind, hbehind⟩ :=
        Instruction.exists_startsIn_cons t m.tape.data.size lead rest
      refine ⟨?_, fun _ hok => by cases hok⟩
      rw [List.map_singleton, fetch_eq hahead, hbehind, List.cons_prefix_cons]
      exact ⟨rfl, List.nil_prefix⟩
  | @next m n visited outcome hgoes hstep hrest ih =>
    cases code with
    | nil => exact absurd (hahead.isDone_iff.mpr rfl) (Bool.eq_false_iff.mp hgoes)
    | cons lead rest =>
      cases hsplit : (t.operation lead.toNat).operand.split? rest with
      | none =>
        -- The machine would fail on an instruction that is cut off.
        obtain ⟨tape, herror⟩ := exists_step_eq_error (p := p) hahead hsplit
        rw [hstep] at herror
        cases herror
      | some taken =>
        obtain ⟨data, behind⟩ := taken
        obtain ⟨tape, htape, hact⟩ := exists_step_eq (p := p) hahead hsplit
        have hdata := (leadsTo_step p t hgoes).data_eq
        rw [hstep] at hact hdata
        have hn := (Operation.tapeFree_act p data _).tape_eq hact.symm
        have hahead' : n.tape.Ahead behind := hn ▸ htape
        obtain ⟨hvisited, hwhole⟩ := ih hahead'
        rw [← ht lead] at hsplit
        rw [show n.tape.data = m.tape.data from hdata] at hvisited hwhole
        rw [List.map_cons, fetch_eq hahead, Instruction.startsIn_cons_of_some _ hsplit]
        refine ⟨List.cons_prefix_cons.mpr ⟨rfl, hvisited⟩, fun k hok => ?_⟩
        rw [hwhole k hok]

end Machine

/-- The opcodes that the run of a script fetches, with their positions, are the first of those at
which the disassembler starts a line, and all of them if the run succeeds. Then the byte code can be
disassembled, with one line for each opcode that was executed. -/
theorem runScript_fetches_starts (p : Primitives) (code : Bytes) (cache : Cache) (stack : Stack) :
    ∃ visited,
      Machine.Loops p .standard (.start code stack cache) visited
        (Machine.runTape p .standard (.start code stack cache)) ∧
      visited.map Machine.fetch <+: Instruction.starts .standard code ∧
      ((runScript p .standard code cache stack).isOk = true →
        visited.map Machine.fetch = Instruction.starts .standard code ∧
        ∃ instructions : List Instruction,
          disassemble .standard code = .ok (instructions.map (Instruction.line .standard)) ∧
          instructions.map (fun i => i.lead.toNat) = visited.map fun m => m.fetch.2) := by
  have ht := OpTable.aligned_standard
  obtain ⟨visited, hloops⟩ :=
    Machine.exists_loops_runTape p .standard (.start code stack cache)
  have hahead : (Machine.start code stack cache).tape.Ahead code := Tape.ahead_ofBytes code
  obtain ⟨hvisited, hwhole⟩ := hloops.fetches ht hahead
  rw [show (Machine.start code stack cache).tape.data.size = code.length by
    simp [Machine.start, Tape.ofBytes]] at hvisited hwhole
  refine ⟨visited, hloops, hvisited, fun hok => ?_⟩
  -- The run has only one loop, and that ends well.
  obtain ⟨visited', n, hends⟩ := runScript_isOk_iff_loops.mp hok
  have hstarts := hwhole n hends.runTape_eq
  obtain ⟨m, hinterpret⟩ := runScript_isOk_iff.mp hok
  obtain ⟨instructions, hcut⟩ := Machine.exists_cut_eq_ok ht hinterpret
  refine ⟨hstarts, instructions, disassemble_eq_ok_iff.mpr ⟨instructions, hcut, rfl⟩, ?_⟩
  rw [← Instruction.map_starts_eq hcut, Instruction.starts, ← hstarts, List.map_map]
  rfl

end FlowGate
