import FlowGate.Proofs.Assembly.Registration

/-!
# Registrations in place

A registration changes five lists. Here they are changed one after the other, and a change that
fails leaves those before it standing; one of them can fail, since the placeholder that is taken away
has to be there. As long as the lists belong together it is there, and everything else that can fail
comes before the first change. So a registration does all of its changes or none, and the lists
belong together after every history of registrations, whatever was asked for.

## Main definitions

* `OpTable.Edit` — changes of a table that may fail halfway
* `OpTable.Edit.assign`, `OpTable.Edit.register`, `OpTable.Edit.registerDigest` — registrations,
  list by list
* `OpTable.Registration` — what can be asked for
* `OpTable.registerAll` — the table after a history of registrations
* `OpTable.operation?` — what an opcode does, looked up where it has to be found

## Main results

* `OpTable.Regular.edit_eq` — in place a registration does what it does at once, or nothing
* `OpTable.Partitioned.registerAll` — the lists belong together after every history
* `OpTable.registerAll_all_or_nothing` — what holds after every history of registrations
-/

namespace FlowGate

/-! ### Lists of keys and values -/

namespace Assoc

variable {α β : Type} [BEq α] [LawfulBEq α]

/-- A key is found exactly if it is the key of an entry. -/
theorem isSome_lookup_iff {entries : List (α × β)} {key : α} :
    (entries.lookup key).isSome = true ↔ key ∈ entries.map Prod.fst := by
  simp [List.lookup_isSome_iff]

omit [LawfulBEq α] in
theorem nodup_keys_erase {entries : List (α × β)} (h : (entries.map Prod.fst).Nodup) (key : α) :
    ((erase entries key).map Prod.fst).Nodup :=
  h.sublist (List.filter_sublist.map _)

/-- A change gives no key a second entry. -/
theorem nodup_keys_set {entries : List (α × β)} (h : (entries.map Prod.fst).Nodup) (key : α)
    (value : β) : ((set entries key value).map Prod.fst).Nodup := by
  rw [set, List.map_cons, List.nodup_cons, ← isSome_lookup_iff, lookup_erase_self]
  exact ⟨by simp, nodup_keys_erase h key⟩

end Assoc

namespace OpTable

/-! ### Changes in place -/

/-- Why a change of a table fails: what was asked for is refused, or a placeholder that is to be
taken away is missing. -/
inductive EditFault
  | refused (error : Error)
  | missing (placeholder : String)

/-- Changes of a table one after the other. Where one fails, those before it stand. -/
abbrev Edit := EStateM EditFault OpTable

namespace Edit

/-- Goes on with a result, or refuses what was asked for. -/
def check {α : Type} (result : Except Error α) : Edit α := fun t =>
  match result with
  | .ok a => .ok a t
  | .error error => .error (.refused error) t

/-- Takes a placeholder away, which has to be there. -/
def dropPlaceholder (name : String) : Edit Unit := fun t =>
  match t.freeNames.lookup name with
  | some _ => .ok () { t with freeNames := Assoc.erase t.freeNames name }
  | none => .error (.missing name) t

/-- Assigns an operation to an opcode, list by list. -/
def assign (code : Nat) (name : String) (op : Operation) : Edit Unit := do
  modify fun t => { t with assigned := Assoc.set t.assigned code (name, op) }
  modify fun t => { t with names := Assoc.set t.names name code }
  modify fun t => { t with aliases := Assoc.set t.aliases (bare name) name }
  match (← get).free.lookup code with
  | none => pure ()
  | some placeholder =>
    modify fun t => { t with free := Assoc.erase t.free code }
    dropPlaceholder placeholder

/-- Refuses an opcode that is assigned already. -/
def unassigned (t : OpTable) (code : Int) : Except Error Unit :=
  match t.assigned.lookup code.toNat, decide (0 ≤ code) with
  | some (taken, _), true => .error (.invalid (.codeTaken code.toNat taken))
  | _, _ => .ok ()

/-- Registers an operation under an opcode and a name. What is no operation is given as `none`. -/
def register (code name : Value) (op : Option Operation) : Edit Unit := do
  let code ← check (code.toInt "code")
  let name ← check (name.toText "name")
  match op with
  | none => check (.error (.wrongType (.notCallable "function")))
  | some op =>
    check (ensure (code.natAbs < 10 ^ maxLiteralDigits) (.invalid .numberTooLong))
    check (unassigned (← get) code)
    check (ensure (0 ≤ code && code < 256) (.invalid .codeRange))
    check (ensure (Text.upper (name.toList.take 3) == stem.toList) (.invalid .nameStem))
    assign code.toNat (capital name) op

/-- Registers the operation that hashes limbs unless its opcode bears its name already. -/
def registerDigest : Edit Unit := do
  if ((← get).assigned.lookup digestCode).map Prod.fst = some digestName then pure ()
  else register (.int digestCode) (.text digestName) (some .digest)

/-- The table that changes leave, also where one of them fails. -/
def apply (edit : Edit Unit) (t : OpTable) : OpTable :=
  match edit t with
  | .ok _ t' => t'
  | .error _ t' => t'

/-- How changes end that are all made or none: with the new table, or refused with the old one. -/
def outcome (t : OpTable) : Except Error OpTable → EStateM.Result EditFault OpTable Unit
  | .ok t' => .ok () t'
  | .error error => .error (.refused error) t

end Edit

/-- What can be asked for: an operation with a code and a name of any kind, or the operation that
hashes limbs. -/
inductive Registration
  | operation (code name : Value) (op : Option Operation)
  | digest

/-- The changes that a registration makes in place. -/
def Registration.edit : Registration → Edit Unit
  | operation code name op => Edit.register code name op
  | digest => Edit.registerDigest

/-- The table that a registration makes of a table. -/
def Registration.result (t : OpTable) : Registration → Except Error OpTable
  | operation code name op => Checked.register t code name op
  | digest => t.registerDigest

/-- The table after a history of registrations in place, those that failed included. -/
def registerAll (t : OpTable) (calls : List Registration) : OpTable :=
  calls.foldl (fun t call => call.edit.apply t) t

/-- What an opcode does; the placeholder of an opcode without operation has to be there. -/
def operation? (t : OpTable) (code : Nat) : Option Operation :=
  match t.assigned.lookup code with
  | some (_, op) => some op
  | none => (t.free.lookup code).map fun _ => .unassigned code

variable {t t' start : OpTable} {name : String} {code : Nat} {op : Operation}
  {call : Registration}

/-! ### All or nothing -/

theorem registerAll_append (t : OpTable) (calls more : List Registration) :
    t.registerAll (calls ++ more) = (t.registerAll calls).registerAll more :=
  List.foldl_append

theorem Edit.modify_bind {α : Type} (change : OpTable → OpTable) (next : Unit → Edit α)
    (t : OpTable) : (modify change >>= next) t = next () (change t) := rfl

theorem Edit.get_bind {α : Type} (next : OpTable → Edit α) (t : OpTable) :
    (get >>= next) t = next t t := rfl

/-- As long as the lists belong together, the placeholder that is taken away is there. -/
theorem Regular.edit_assign_eq (h : t.Regular) (hlt : code < 256)
    (hfree : t.assigned.lookup code = none) (name : String) (op : Operation) :
    Edit.assign code name op t = .ok () (t.assign code name op) := by
  have hplaceholder := h.free_iff.mpr ⟨hlt, hfree, rfl⟩
  have hname := h.freeNames_iff.mpr ⟨hlt, hfree, rfl⟩
  simp only [Edit.assign, Edit.modify_bind, Edit.get_bind, hplaceholder, Edit.dropPlaceholder,
    hname, OpTable.assign]

/-- A check before changes that are all made or none keeps them so. -/
theorem Edit.check_bind_eq {α : Type} {result : Except Error α} {next : α → Edit Unit}
    {f : α → Except Error OpTable} (h : ∀ a, result = .ok a → next a t = outcome t (f a)) :
    (check result >>= next) t = outcome t (result >>= f) := by
  cases result with
  | error error => rfl
  | ok a => exact h a rfl

theorem Edit.lookup_of_unassigned {n : Int} (hn : 0 ≤ n) (h : Edit.unassigned t n = .ok ()) :
    t.assigned.lookup n.toNat = none := by
  cases hlookup : t.assigned.lookup n.toNat with
  | none => rfl
  | some entry => simp [Edit.unassigned, hlookup, hn] at h

/-- The checks of a registration in their order. -/
theorem register_eq_bind (t : OpTable) (code : Int) (name : String) (op : Operation) :
    t.register code name op = (do
      Edit.unassigned t code
      ensure (0 ≤ code && code < 256) (.invalid .codeRange)
      ensure (Text.upper (name.toList.take 3) == stem.toList) (.invalid .nameStem)
      return t.assign code.toNat (capital name) op) := by
  unfold register Edit.unassigned
  cases t.assigned.lookup code.toNat with
  | none => rfl
  | some entry => cases decide (0 ≤ code) <;> rfl

/-- In place an operation is registered under an opcode and a name, or refused with the table as it
was. -/
theorem Regular.edit_register_eq (h : t.Regular) (code name : Value) (op : Option Operation) :
    Edit.register code name op t = Edit.outcome t (Checked.register t code name op) := by
  refine Edit.check_bind_eq fun n _ => Edit.check_bind_eq fun text _ => ?_
  cases op with
  | none => rfl
  | some op =>
    refine Edit.check_bind_eq fun _ _ => ?_
    rw [register_eq_bind]
    refine Edit.check_bind_eq fun ⟨⟩ hunassigned => Edit.check_bind_eq fun ⟨⟩ hrange =>
      Edit.check_bind_eq fun ⟨⟩ _ => ?_
    simp only [ensure_eq_ok_iff, Bool.and_eq_true, decide_eq_true_eq] at hrange
    exact h.edit_assign_eq (by omega) (Edit.lookup_of_unassigned hrange.1 hunassigned) _ _

/-- Values that are a byte, a name and an operation are registered as such. -/
theorem register_values (t : OpTable) (hlt : code < 256) (name : String) (op : Operation) :
    Checked.register t (.int code) (.text name) (some op) = t.register code name op := by
  have hshort : (code : Int).natAbs < 10 ^ maxLiteralDigits := by
    have hpow : 10 ^ 3 ≤ 10 ^ maxLiteralDigits := Nat.pow_le_pow_right (by decide) (by decide)
    omega
  unfold Checked.register
  refine (bind_of_eq_ok rfl _).trans ((bind_of_eq_ok rfl _).trans ?_)
  exact bind_of_eq_ok (ensure_eq_ok_iff.mpr (decide_eq_true hshort)) _

/-- In place every registration does all of its changes at once, or is refused and does none. -/
theorem Regular.edit_eq (h : t.Regular) (call : Registration) :
    call.edit t = Edit.outcome t (call.result t) := by
  cases call with
  | operation code name op => exact h.edit_register_eq code name op
  | digest =>
    change Edit.registerDigest t = Edit.outcome t t.registerDigest
    have hregister : Edit.register (.int digestCode) (.text digestName) (some .digest) t =
        Edit.outcome t (t.register digestCode digestName .digest) := by
      rw [h.edit_register_eq, register_values t (by decide)]
    -- Both ways look up the opcode of the digest first, and then at its name.
    have hedit : Edit.registerDigest t =
        (if (t.assigned.lookup digestCode).map Prod.fst = some digestName then pure ()
        else Edit.register (.int digestCode) (.text digestName) (some .digest) : Edit Unit) t := rfl
    rw [hedit, registerDigest]
    cases hlookup : t.assigned.lookup digestCode with
    | none => simpa [hlookup] using hregister
    | some entry =>
      by_cases hname : entry.1 = digestName
      · simp [hname, Edit.outcome]
        rfl
      · simpa [hname] using hregister

/-! ### Histories -/

/-- What a registration makes of a table is the same table, or one in which an operation is assigned
to an opcode that had none. -/
theorem Registration.result_cases (h : call.result t = .ok t') :
    t' = t ∨ ∃ code name op, code < 256 ∧ t.assigned.lookup code = none ∧ IsName name ∧
      t' = t.assign code name op := by
  have hregister : ∀ {n text op}, t.register n text op = .ok t' →
      ∃ code name op, code < 256 ∧ t.assigned.lookup code = none ∧ IsName name ∧
        t' = t.assign code name op := by
    intro n text op hok
    obtain ⟨code, -, hlt, hfree, hname, rfl⟩ := exists_assign_of_register_eq_ok hok
    exact ⟨code, _, op, hlt, hfree, hname, rfl⟩
  cases call with
  | operation code name op =>
    obtain ⟨n, text, op, hok⟩ := exists_register_of_checked_eq_ok h
    exact .inr (hregister hok)
  | digest =>
    -- Nothing is registered if the opcode bears its name already.
    change t.registerDigest = .ok t' at h
    unfold OpTable.registerDigest at h
    split at h
    · split at h
      · exact .inl (Except.ok.inj h).symm
      · exact .inr (hregister h)
    · exact .inr (hregister h)

/-- In place a registration leaves the same table, or assigns an operation to an opcode that had
none. -/
theorem Regular.apply_cases (h : t.Regular) (call : Registration) :
    call.edit.apply t = t ∨ ∃ code name op, code < 256 ∧ t.assigned.lookup code = none ∧
      IsName name ∧ call.edit.apply t = t.assign code name op := by
  rw [Edit.apply, h.edit_eq call]
  cases hresult : call.result t with
  | error error => exact .inl rfl
  | ok t' => exact Registration.result_cases hresult

/-- The lists of a table belong together, and no opcode occurs in them twice. -/
structure Partitioned (t : OpTable) : Prop extends t.Regular where
  nodup_assigned : (t.assigned.map Prod.fst).Nodup
  nodup_free : (t.free.map Prod.fst).Nodup

/-- Every opcode is either assigned or free. -/
theorem Partitioned.perm_range (h : t.Partitioned) :
    (t.assigned.map Prod.fst ++ t.free.map Prod.fst).Perm (List.range 256) := by
  have hfree : ∀ {code}, code ∈ t.free.map Prod.fst ↔
      code < 256 ∧ t.assigned.lookup code = none := by
    intro code
    rw [← Assoc.isSome_lookup_iff, Option.isSome_iff_exists]
    simp [h.free_iff]
  have hnodup : (t.assigned.map Prod.fst ++ t.free.map Prod.fst).Nodup := by
    refine List.nodup_append.mpr ⟨h.nodup_assigned, h.nodup_free, ?_⟩
    rintro code hassigned _ hcode rfl
    rw [← Assoc.isSome_lookup_iff, (hfree.mp hcode).2] at hassigned
    cases hassigned
  refine (List.perm_ext_iff_of_nodup hnodup List.nodup_range).mpr fun code => ?_
  rw [List.mem_append, hfree, List.mem_range, ← Assoc.isSome_lookup_iff]
  cases hlookup : t.assigned.lookup code with
  | none => simp
  | some entry => simpa using h.code_lt hlookup

theorem Partitioned.assign (h : t.Partitioned) (hlt : code < 256)
    (hfree : t.assigned.lookup code = none) (hname : IsName name) (op : Operation) :
    (t.assign code name op).Partitioned := by
  refine ⟨h.toRegular.assign hlt hfree hname op, ?_, ?_⟩
  · rw [assigned_assign]
    exact Assoc.nodup_keys_set h.nodup_assigned _ _
  · rw [h.free_assign hlt hfree]
    exact Assoc.nodup_keys_erase h.nodup_free _

/-- A registration in place, whether it succeeds or fails, keeps the opcodes apart. -/
theorem Partitioned.apply (h : t.Partitioned) (call : Registration) :
    (call.edit.apply t).Partitioned := by
  rcases h.apply_cases call with hsame | ⟨code, name, op, hlt, hfree, hname, hassign⟩
  · rwa [hsame]
  · rw [hassign]
    exact h.assign hlt hfree hname op

/-- After every history of registrations the opcodes are kept apart. -/
theorem Partitioned.registerAll (h : t.Partitioned) (calls : List Registration) :
    (t.registerAll calls).Partitioned := by
  induction calls generalizing t with
  | nil => exact h
  | cons call calls ih => exact ih (h.apply call)

/-- An opcode that is assigned keeps name and operation in a registration. -/
theorem Regular.lookup_assigned_apply (h : t.Regular) (call : Registration)
    {entry : String × Operation} (hentry : t.assigned.lookup code = some entry) :
    (call.edit.apply t).assigned.lookup code = some entry := by
  rcases h.apply_cases call with hsame | ⟨other, name, op, -, hfree, -, hassign⟩
  · rw [hsame, hentry]
  · have hne : code ≠ other := by
      rintro rfl
      rw [hentry] at hfree
      cases hfree
    rw [hassign, assigned_assign, Assoc.lookup_set_of_ne _ _ hne, hentry]

/-- An opcode that is assigned keeps name and operation in every history. -/
theorem Partitioned.lookup_assigned_registerAll (h : t.Partitioned) (calls : List Registration)
    {entry : String × Operation} (hentry : t.assigned.lookup code = some entry) :
    (t.registerAll calls).assigned.lookup code = some entry := by
  induction calls generalizing t with
  | nil => exact hentry
  | cons call calls ih => exact ih (h.apply call) (h.lookup_assigned_apply call hentry)

theorem partitioned_basic : basic.Partitioned where
  toRegular := regular_basic
  nodup_assigned := nodup_codes.sublist ((List.sublist_append_left _ _).map Prod.fst)
  nodup_free := by
    -- The free opcodes are some of the bytes, each with its placeholder.
    change (List.map Prod.fst (List.map _ (List.filter _ (List.range 256)))).Nodup
    rw [List.map_map]
    exact List.Nodup.map (fun _ _ h => h) (List.nodup_range.filter _)

theorem partitioned_standard : standard.Partitioned := by
  have hrow : (digestCode, digestName, Operation.digest) ∈ standardRows :=
    List.mem_append_right _ List.mem_cons_self
  have hfree : basic.assigned.lookup digestCode = none := by decide +kernel
  exact partitioned_basic.assign (by decide) hfree (isPlainName_of_mem hrow).isName .digest

/-! ### Looking bytes up -/

/-- The name and the operation of a byte are found. -/
theorem Regular.exists_lookups_eq (h : t.Regular) (hlt : code < 256) :
    ∃ name, t.name? code = some name ∧ t.operation? code = some (t.operation code) := by
  obtain ⟨name, hname⟩ := h.exists_name?_eq hlt
  refine ⟨name, hname, ?_⟩
  rw [operation?, operation]
  cases hassigned : t.assigned.lookup code with
  | some entry => rfl
  | none =>
    rw [name?, hassigned] at hname
    simp only [show t.free.lookup code = some name from hname, Option.map_some]

/-- Whatever has been registered, successfully or not, in a table with or without the operation that
hashes limbs: Every opcode is either assigned or free, and is so once. The placeholders are those of
the free opcodes. Every alias leads to a name in use. So every byte has a name and an operation. An
opcode that is assigned keeps its name and its operation, whatever is registered later. And a
registration, done list by list, ends as it does at once: if it fails it was refused, and leaves all
lists as they were. -/
theorem registerAll_all_or_nothing (hstart : start = basic ∨ start = standard)
    (calls : List Registration) {t : OpTable} (ht : start.registerAll calls = t) :
    (t.assigned.map Prod.fst ++ t.free.map Prod.fst).Perm (List.range 256) ∧
    (∀ code name, t.freeNames.lookup name = some code ↔ t.free.lookup code = some name) ∧
    (∀ symbol name, t.aliases.lookup symbol = some name → ∃ code, t.names.lookup name = some code) ∧
    (∀ byte : UInt8, ∃ name, t.name? byte.toNat = some name ∧
      t.operation? byte.toNat = some (t.operation byte.toNat)) ∧
    (∀ code entry, t.assigned.lookup code = some entry →
      ∀ more, (start.registerAll (calls ++ more)).assigned.lookup code = some entry) ∧
    ∀ call : Registration,
      (∀ t', call.edit t = .ok () t' ↔ call.result t = .ok t') ∧
      ∀ fault t', call.edit t = .error fault t' →
        t' = t ∧ ∃ error, fault = .refused error ∧ call.result t = .error error := by
  -- Either table is partitioned, and registrations keep it so.
  have hpartitioned : t.Partitioned := by
    rcases hstart with rfl | rfl
    · exact ht ▸ partitioned_basic.registerAll calls
    · exact ht ▸ partitioned_standard.registerAll calls
  refine ⟨hpartitioned.perm_range, fun code name => ?_, fun symbol name hsymbol => ?_,
    fun byte => ?_, fun code entry hentry more => ?_, fun call => ?_⟩
  · rw [hpartitioned.freeNames_iff, hpartitioned.free_iff]
  · exact Option.isSome_iff_exists.mp (hpartitioned.name_of_alias hsymbol)
  · exact hpartitioned.exists_lookups_eq byte.toNat_lt
  · rw [registerAll_append, ht]
    exact hpartitioned.lookup_assigned_registerAll more hentry
  · rw [hpartitioned.edit_eq call]
    cases call.result t with
    | ok t' => simp [Edit.outcome]
    | error error => simp +contextual [Edit.outcome, eq_comm]

/-- The code 0xfd is registered as `op_nine`, and then the operation that hashes limbs. -/
def sampleHistory : List Registration :=
  [.operation (.int (0xfd : Nat)) (.text "op_nine") (some (.push [9])), .digest]

/-- Another name for the code 0xfd. -/
def sampleRepeat : Registration :=
  .operation (.int (0xfd : Nat)) (.text "OP_TEN") (some (.push [10]))

/-- After the history every opcode is assigned or free, and both operations are found from then on.
Another name for 0xfd is refused with the table as it is. -/
theorem registerAll_all_or_nothing_sample :
    ∃ t, basic.registerAll sampleHistory = t ∧
      (t.assigned.map Prod.fst ++ t.free.map Prod.fst).Perm (List.range 256) ∧
      (∀ more, (basic.registerAll (sampleHistory ++ more)).assigned.lookup 0xfd =
        some ("OP_NINE", .push [9])) ∧
      t.name? digestCode = some digestName ∧
      sampleRepeat.edit t = .error (.refused (.invalid (.codeTaken 0xfd "OP_NINE"))) t := by
  obtain ⟨t, ht⟩ : ∃ t, basic.registerAll sampleHistory = t := ⟨_, rfl⟩
  obtain ⟨hperm, -, -, -, hkept, hcalls⟩ := registerAll_all_or_nothing (.inl rfl) sampleHistory ht
  have hnine : t.assigned.lookup 0xfd = some ("OP_NINE", .push [9]) := by
    subst ht
    decide +kernel
  refine ⟨t, ht, hperm, hkept 0xfd _ hnine, by subst ht; decide +kernel, ?_⟩
  have hresult : sampleRepeat.result t = .error (.invalid (.codeTaken 0xfd "OP_NINE")) := by
    rw [sampleRepeat, Registration.result, register_values t (by decide), register,
      Int.toNat_natCast, hnine]
    rfl
  obtain ⟨hok, hfail⟩ := hcalls sampleRepeat
  cases hedit : sampleRepeat.edit t with
  | ok _ t' =>
    rw [(hok t').mp hedit] at hresult
    cases hresult
  | error fault t' =>
    obtain ⟨rfl, error, rfl, herror⟩ := hfail fault t' hedit
    rw [hresult] at herror
    rw [Except.error.inj herror]

end OpTable

end FlowGate
