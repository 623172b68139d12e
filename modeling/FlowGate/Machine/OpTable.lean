import FlowGate.Machine.Operation
import FlowGate.Text.UpperCase

/-!
# Opcode tables

The opcodes with their names and operations, and the names that source text may use. New opcodes
can be registered where no operation is assigned yet.

## Main definitions

* `Assoc.set`, `Assoc.erase` — changes of a list of keys and values
* `OpTable` — assigned opcodes, names, aliases, and the placeholders of unassigned opcodes
* `OpTable.standard` — the table with which scripts start
* `OpTable.register` — assigns an operation to a free opcode
* `OpTable.operation`, `OpTable.name` — what an opcode does and is called
* `OpTable.resolve?`, `OpTable.codeOf?` — the name that a symbol stands for, and its opcode

## Main results

* `Assoc.lookup_set_self`, `Assoc.lookup_set_of_ne`, `Assoc.lookup_erase_self`,
  `Assoc.lookup_erase_of_ne` — what is found after a change
-/

namespace FlowGate

namespace Assoc

variable {α β : Type} [BEq α]

/-- Removes a key. -/
def erase (entries : List (α × β)) (key : α) : List (α × β) :=
  entries.filter fun entry => entry.1 != key

/-- Gives a key a value, in place of any value that it had. -/
def set (entries : List (α × β)) (key : α) (value : β) : List (α × β) :=
  (key, value) :: erase entries key

variable [LawfulBEq α]

/-- What is looked up is an entry. -/
theorem mem_of_lookup_eq_some {entries : List (α × β)} {key : α} {value : β}
    (h : entries.lookup key = some value) : (key, value) ∈ entries := by
  obtain ⟨before, behind, rfl, -⟩ := List.lookup_eq_some_iff.mp h
  simp

/-- Where no two entries have the same key, all entries are found. -/
theorem lookup_eq_some_iff_mem {entries : List (α × β)}
    (hunique : ∀ a ∈ entries, ∀ b ∈ entries, a.1 = b.1 → a = b) {key : α} {value : β} :
    entries.lookup key = some value ↔ (key, value) ∈ entries := by
  refine ⟨mem_of_lookup_eq_some, fun h => ?_⟩
  obtain ⟨found, hfound⟩ := Option.isSome_iff_exists.mp
    (List.lookup_isSome_iff.mpr ⟨_, h, beq_self_eq_true key⟩)
  have hsame := hunique _ (mem_of_lookup_eq_some hfound) _ h rfl
  rw [hfound, (Prod.mk.inj hsame).2]

theorem lookup_erase_self (entries : List (α × β)) (key : α) :
    (erase entries key).lookup key = none := by
  rw [List.lookup_eq_none_iff]
  intro entry hentry
  have hne := (List.mem_filter.mp hentry).2
  simp only [bne_iff_ne] at hne ⊢
  exact hne.symm

theorem lookup_erase_of_ne (entries : List (α × β)) {key other : α} (h : other ≠ key) :
    (erase entries key).lookup other = entries.lookup other := by
  induction entries with
  | nil => rfl
  | cons entry entries ih =>
    rw [erase] at ih ⊢
    by_cases hentry : entry.1 = key
    · have hother : (other == entry.1) = false := by simpa [hentry] using h
      rw [List.filter_cons_of_neg (by simp [hentry]), ih, List.lookup_cons, hother]
    · rw [List.filter_cons_of_pos (by simpa using hentry), List.lookup_cons, List.lookup_cons, ih]

theorem lookup_set_self (entries : List (α × β)) (key : α) (value : β) :
    (set entries key value).lookup key = some value :=
  List.lookup_cons_self

theorem lookup_set_of_ne (entries : List (α × β)) {key other : α} (value : β) (h : other ≠ key) :
    (set entries key value).lookup other = entries.lookup other := by
  have hother : (other == key) = false := by simpa using h
  rw [set, List.lookup_cons, hother, lookup_erase_of_ne entries h]

/-- What is found after a change is the new value, or was found before. -/
theorem lookup_set_eq_some_iff {entries : List (α × β)} {key other : α} {value found : β} :
    (set entries key value).lookup other = some found ↔
      other = key ∧ value = found ∨ other ≠ key ∧ entries.lookup other = some found := by
  by_cases h : other = key
  · simp [h, lookup_set_self]
  · simp [h, lookup_set_of_ne entries value h]

/-- A key that has a value still has one after a change. -/
theorem isSome_lookup_set {entries : List (α × β)} {key other : α} {value : β}
    (h : other = key ∨ (entries.lookup other).isSome = true) :
    ((set entries key value).lookup other).isSome = true := by
  by_cases heq : other = key
  · rw [heq, lookup_set_self]
    rfl
  · rw [lookup_set_of_ne entries value heq]
    exact h.resolve_left heq

end Assoc

/-- The opcodes and the names for them. -/
structure OpTable where
  /-- The assigned opcodes with name and operation. -/
  assigned : List (Nat × String × Operation)
  /-- The opcodes of the names in use. -/
  names : List (String × Nat)
  /-- Other spellings of names. -/
  aliases : List (String × String)
  /-- The placeholder names of the unassigned opcodes. -/
  free : List (Nat × String)
  /-- The opcodes of the placeholder names. -/
  freeNames : List (String × Nat)
  deriving DecidableEq, Repr

namespace OpTable

/-- The stem of every name of an opcode. -/
def stem : String := "OP_"

/-- The opcodes that are assigned from the start. -/
def basicOperations : List (Nat × String × Operation) :=
  [(0x00, "OP_0", .push [])] ++
  (List.range 75).map (fun n => (n + 1, s!"OP_PUSHBYTES_{n + 1}", .pushOperand (.fixed (n + 1)))) ++
  [(0x4c, "OP_PUSHDATA1", .pushOperand (.counted 1)),
   (0x4d, "OP_PUSHDATA2", .pushOperand (.counted 2)),
   (0x4e, "OP_PUSHDATA4", .pushOperand (.counted 4)),
   (0x4f, "OP_1NEGATE", .push (ScriptNumber.encode (-1)))] ++
  (List.range 16).map
    (fun n => (0x51 + n, s!"OP_{n + 1}", .push (ScriptNumber.encode (n + 1 : Nat)))) ++
  [(0x61, "OP_NOP", .nop),
   (0x69, "OP_VERIFY", .verify),
   (0x6a, "OP_RETURN", .return),
   (0x6b, "OP_TOALTSTACK", .toAlt),
   (0x6c, "OP_FROMALTSTACK", .fromAlt),
   (0x74, "OP_DEPTH", .depth),
   (0x75, "OP_DROP", .drop),
   (0x76, "OP_DUP", .dup),
   (0x7c, "OP_SWAP", .swap),
   (0x87, "OP_EQUAL", .equal),
   (0x88, "OP_EQUALVERIFY", .equalVerify),
   (0x9f, "OP_LESSTHAN", .lessThan),
   (0xa0, "OP_GREATERTHAN", .greaterThan),
   (0xac, "OP_CHECKSIG", .checkSig),
   (0xad, "OP_CHECKSIGVERIFY", .checkSigVerify)]

/-- Spellings of names besides the one without the stem. -/
def extraAliases : List (String × String) :=
  [("OP_FALSE", "OP_0"), ("FALSE", "OP_0"), ("OP_TRUE", "OP_1"), ("TRUE", "OP_1"),
   ("OP_CSV", "OP_CHECKSIGVERIFY"), ("CSV", "OP_CHECKSIGVERIFY")]

/-- A name without its first three characters, the stem. -/
def bare (name : String) : String := String.ofList (name.toList.drop 3)

/-- The table of the operations that are assigned from the start. -/
def basic : OpTable :=
  let free := ((List.range 256).filter fun code => (basicOperations.lookup code).isNone).map
    fun code => (code, s!"OP_INVALID_{code}")
  { assigned := basicOperations
    names := basicOperations.map fun (code, name, _) => (name, code)
    aliases := basicOperations.map (fun (_, name, _) => (bare name, name)) ++ extraAliases
    free
    freeNames := free.map fun (code, name) => (name, code) }

/-- Assigns an operation to an opcode under a name, which replaces the placeholder. -/
def assign (t : OpTable) (code : Nat) (name : String) (op : Operation) : OpTable :=
  let grown := { t with
    assigned := Assoc.set t.assigned code (name, op)
    names := Assoc.set t.names name code
    aliases := Assoc.set t.aliases (bare name) name }
  match t.free.lookup code with
  | none => grown
  -- The placeholder stands for nothing any more.
  | some placeholder => { grown with
      free := Assoc.erase t.free code
      freeNames := Assoc.erase t.freeNames placeholder }

/-- The opcode of the operation that hashes limbs. -/
def digestCode : Nat := 0xbb

/-- The name of the operation that hashes limbs. -/
def digestName : String := "OP_BLAKE3"

/-- The table with which scripts start. -/
def standard : OpTable := basic.assign digestCode digestName .digest

/-- Assigns an operation to an opcode that is still free, under the upper-case form of a name that
starts with the stem in any case. -/
def register (t : OpTable) (code : Int) (name : String) (op : Operation) :
    Except Error OpTable := do
  -- That an opcode is taken is reported before its range and its name are looked at.
  match t.assigned.lookup code.toNat, decide (0 ≤ code) with
  | some (taken, _), true => throw (.invalid (.codeTaken code.toNat taken))
  | _, _ =>
    ensure (0 ≤ code && code < 256) (.invalid .codeRange)
    ensure (Text.upper (name.toList.take 3) == stem.toList) (.invalid .nameStem)
    return t.assign code.toNat (String.ofList (Text.upper name.toList)) op

/-- Registers the operation that hashes limbs unless its opcode bears its name already. -/
def registerDigest (t : OpTable) : Except Error OpTable :=
  match t.assigned.lookup digestCode with
  | some (name, _) =>
    if name = digestName then .ok t else t.register digestCode digestName .digest
  | none => t.register digestCode digestName .digest

/-- What an opcode does; an opcode without operation fails. -/
def operation (t : OpTable) (code : Nat) : Operation :=
  match t.assigned.lookup code with
  | some (_, op) => op
  | none => .unassigned code

/-- The name of an opcode, or its placeholder. -/
def name? (t : OpTable) (code : Nat) : Option String :=
  match t.assigned.lookup code with
  | some (name, _) => some name
  | none => t.free.lookup code

/-- The name of an opcode, empty for what is no opcode. -/
def name (t : OpTable) (code : Nat) : String := (t.name? code).getD ""

/-- The opcode of a name or a placeholder. -/
def codeOf? (t : OpTable) (name : String) : Option Nat :=
  (t.names.lookup name).orElse fun _ => t.freeNames.lookup name

/-- The name that a symbol stands for, in any case and by any alias. -/
def resolve? (t : OpTable) (symbol : String) : Option String :=
  let upper := String.ofList (Text.upper symbol.toList)
  -- An alias hides a name that is spelled like it.
  let name := (t.aliases.lookup upper).getD upper
  if (t.codeOf? name).isSome then some name else none

/-- The operation of a name or a placeholder. -/
def operationOf? (t : OpTable) (name : String) : Option Operation :=
  (t.codeOf? name).map t.operation

end OpTable

end FlowGate
