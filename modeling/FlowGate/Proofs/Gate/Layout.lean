import FlowGate.Gate.LockingCache
import FlowGate.Primitives
import FlowGate.Proofs.Bytes.Nibbles
import FlowGate.Proofs.Gate.Vocabulary

/-!
# The layout of a locking script

Which byte code the locking script of a gate has, and which action each of its parts does. Building
the script of a gate never fails.

## Main definitions

* `LockingArgs.ofFragment`, `LockingArgs.ofNibbles` — arguments for nibbles, with any hash and with
  the usual one
* `Gate`, `Gate.ofFlowId` — the arguments for which a locking script can be built, and those of a
  flow id
* `Gate.argsOf`, `Gate.codeEmitting`, `Gate.passEmitting` — a gate as arguments for a hash, the byte
  code of its locking script, and the action of this code
* `Gate.argsOfWidth`, `Gate.codeOfWidth`, `Gate.passOfWidth` — the case of a hash that emits the
  order of the gate and declares some width
* `Gate.args`, `Gate.code`, `Gate.pass` — the case of the usual hash

## Main results

* `Gate.computeScript_eq` — the byte code that hashes a message
* `Gate.exists_build_argsOf_eq` — the locking script is built for every fragment that declares the
  order of the gate and a width that the nibbles fit
* `Gate.exists_build_eq` — the locking script of a gate is built and has the byte code of the gate
* `Gate.does_code` — the byte code of a gate does its action
-/

namespace FlowGate

/-- The arguments of a locking script for a hash and given nibbles. -/
def LockingArgs.ofFragment (role : GateRole) (key : Bytes) (fragment : Fragment)
    (nibbles : List Nat) : LockingArgs :=
  ⟨role, .bytes key, nibbles.map fun n : Nat => .int n, fragment⟩

/-- The arguments of a locking script with the usual hash for given nibbles. -/
def LockingArgs.ofNibbles (role : GateRole) (key : Bytes) (order : NibbleOrder)
    (nibbles : List Nat) : LockingArgs :=
  .ofFragment role key (.limbwise order Fragment.fullWidth) nibbles

/-- A gate: a role, a key, the leading nibbles of the digests that it lets pass, and the order in
which it lays the nibbles onto the stack. -/
structure Gate where
  role : GateRole
  key : Bytes
  nibbles : List Nat
  order : NibbleOrder
  length_key : key.length = Primitives.keyLength
  length_nibbles_le : nibbles.length ≤ 64
  lt_of_mem_nibbles : ∀ n ∈ nibbles, n < 16

/-- The gate of a flow id with a prefix of up to four bytes. -/
def Gate.ofFlowId (role : GateRole) {key : Bytes} (hkey : key.length = Primitives.keyLength)
    (order : NibbleOrder) {k : Nat} (hk : k ≤ 4) (flowId : Nat) : Gate where
  role := role
  key := key
  nibbles := (Bytes.ofNat k flowId).toNibbles
  order := order
  length_key := hkey
  length_nibbles_le := by
    rw [Bytes.length_toNibbles, Bytes.length_ofNat]
    omega
  lt_of_mem_nibbles _ h := Bytes.lt_of_mem_toNibbles h

/-- Whether a role admits a number that it can compare. -/
def GateRole.relation : GateRole → Int → Int → Bool
  | f1 => fun a b => a > b
  | f2 => fun a b => a < b

/-- The opcode of the comparison of a role. -/
def GateRole.comparisonCode : GateRole → UInt8
  | f1 => 0xa0
  | f2 => 0x9f

/-- The comparison of a role is an operation. -/
theorem GateRole.writes_comparison (role : GateRole) :
    Writes [role.comparison] [role.comparisonCode] (fun _ => Exec.compare role.relation) := by
  cases role with
  | f1 =>
    have hmem : (0xa0, "OP_GREATERTHAN", Operation.greaterThan) ∈ OpTable.basicOperations := by
      decide +kernel
    exact writes_of_mem hmem rfl
  | f2 =>
    have hmem : (0x9f, "OP_LESSTHAN", Operation.lessThan) ∈ OpTable.basicOperations := by
      decide +kernel
    exact writes_of_mem hmem rfl

namespace Gate

open Operation

/-! ### The check of the signature -/

/-- The byte code that checks a signature. -/
def signatureCode (key : Bytes) : Bytes := Push.data key ++ [0xad]

/-- Puts the key and checks the signature under it. -/
def checkSignature (key : Bytes) (p : Primitives) : Exec Unit := do
  Exec.push key
  checkSigVerify.act p []

theorem writes_signature {key : Bytes} (h : key.length ≤ Push.maxLength) :
    Writes ["x" ++ Hex.encode key, "OP_CHECKSIGVERIFY"] (signatureCode key)
      (checkSignature key) := by
  have hmem : (0xad, "OP_CHECKSIGVERIFY", checkSigVerify) ∈ OpTable.basicOperations := by
    decide +kernel
  exact (writes_hex h).append (writes_of_mem hmem rfl)

theorem exists_signatureCheck_eq {key : Bytes} (h : key.length = Primitives.keyLength) :
    ∃ source, signatureCheck .standard key = .ok ⟨source, signatureCode key⟩ := by
  have hlength : key.length ≤ Push.maxLength := by
    rw [h]
    decide
  refine ⟨" ".intercalate ["x" ++ Hex.encode key, "OP_CHECKSIGVERIFY"], ?_⟩
  rw [← (writes_signature hlength).spells.ofSymbols_eq]
  simp only [signatureCheck, h, BEq.rfl, ensure_true, bind, Except.bind]

/-! ### The comparison with the threshold -/

/-- The byte code that compares the input with the threshold of a role. -/
def thresholdCode (role : GateRole) : Bytes :=
  [0x76] ++ (Push.number role.threshold ++ ([role.comparisonCode] ++ [0x69]))

/-- Compares a copy of the number on top with the threshold of a role. -/
def compareThreshold (role : GateRole) (p : Primitives) : Exec Unit := do
  dup.act p []
  Exec.push (ScriptNumber.encode role.threshold)
  Exec.compare role.relation
  verify.act p []

theorem writes_threshold (role : GateRole) :
    Writes ["OP_DUP", toString role.threshold, role.comparison, "OP_VERIFY"] (thresholdCode role)
      (compareThreshold role) := by
  have hdup : (0x76, "OP_DUP", dup) ∈ OpTable.basicOperations := by decide +kernel
  have hverify : (0x69, "OP_VERIFY", verify) ∈ OpTable.basicOperations := by decide +kernel
  have hnumber : role.threshold < 2 ^ 32 := by cases role <;> decide
  exact (writes_of_mem hdup rfl).append ((writes_toString hnumber).append
    (role.writes_comparison.append (writes_of_mem hverify rfl)))

theorem exists_thresholdCheck_eq (role : GateRole) :
    ∃ source, thresholdCheck .standard role = .ok ⟨source, thresholdCode role⟩ :=
  ⟨_, (writes_threshold role).spells.ofSymbols_eq⟩

/-! ### Dropping items -/

theorem writes_drop : Writes ["OP_DROP"] [0x75] (fun p => drop.act p []) := by
  have hmem : (0x75, "OP_DROP", drop) ∈ OpTable.basicOperations := by decide +kernel
  exact writes_of_mem hmem rfl

theorem exists_dropInput_eq : ∃ source, dropInput .standard = .ok ⟨source, [0x75]⟩ :=
  ⟨_, writes_drop.spells.ofSymbols_eq⟩

/-! ### Hashing the message -/

/-- The byte code that hashes a message of the given length, in limbs of the given length. -/
def hashingCode (order : NibbleOrder) (messageLength limbLength : Nat) : Bytes :=
  Push.number messageLength ++ (Push.number limbLength ++
    (Push.number order.flag ++ [Fragment.digestOpcode]))

/-- Replaces the limbs of a message by the nibbles of its digest. -/
def hashMessage (order : NibbleOrder) (messageLength limbLength : Nat) (p : Primitives) :
    Exec Unit := do
  Exec.push (ScriptNumber.encode messageLength)
  Exec.push (ScriptNumber.encode limbLength)
  Exec.push (ScriptNumber.encode order.flag)
  Exec.digest p

/-- The operation that hashes limbs is an opcode of its own. -/
theorem does_digest (p : Primitives) :
    Machine.Does p .standard [Fragment.digestOpcode] (Exec.digest p) := by
  have hoperation : OpTable.standard.operation Fragment.digestOpcode.toNat = digest :=
    OpTable.operation_digest
  exact Machine.does_opcode OpTable.aligned_standard hoperation rfl

theorem does_hashingCode (order : NibbleOrder) {messageLength limbLength : Nat}
    (hmessage : messageLength < 2 ^ 32) (hlimb : limbLength < 2 ^ 32) (p : Primitives) :
    Machine.Does p .standard (hashingCode order messageLength limbLength)
      (hashMessage order messageLength limbLength p) := by
  -- Three numbers are put, the two lengths and the flag, and then the digest is taken.
  have hflag : Machine.Does p .standard (Push.number order.flag)
      (Exec.push (ScriptNumber.encode order.flag)) := by
    cases order with
    | firstDeepest => exact Push.does_number_of_lt (show 0 < 2 ^ 32 by decide)
    | firstOnTop => exact Push.does_number_of_lt (show 1 < 2 ^ 32 by decide)
  exact (Push.does_number_of_lt hmessage).append OpTable.aligned_standard <|
    (Push.does_number_of_lt hlimb).append OpTable.aligned_standard <|
      hflag.append OpTable.aligned_standard (does_digest p)

/-- The byte code that hashes a message depends on the order that the fragment emits, and not on its
width. -/
theorem computeScript_eq (fragment : Fragment) {messageLength limbLength : Nat}
    (hmessage : 0 < messageLength) (hlimb : 0 < limbLength) (hmessageLt : messageLength < 2 ^ 32)
    (hlimbLt : limbLength < 2 ^ 32) :
    fragment.computeScript messageLength limbLength =
      .ok (hashingCode fragment.emitted messageLength limbLength) := by
  have hpositive : ∀ n : Nat, 0 < n → decide ((n : Int) > 0) = true := fun n hn =>
    decide_eq_true (Int.natCast_pos.mpr hn)
  rw [Fragment.computeScript, hpositive _ hmessage, hpositive _ hlimb,
    Push.number?_of_lt hmessageLt, Push.number?_of_lt hlimbLt, hashingCode]
  simp only [ensure_true, bind, Except.bind, pure, Except.pure, List.append_assoc]

/-- The byte code that hashes the limbs of the message of a gate. -/
def hashCode (order : NibbleOrder) : Bytes := hashingCode order 12 4

/-- Replaces three limbs by the nibbles of the digest of their message. -/
def hashLimbs (order : NibbleOrder) (p : Primitives) : Exec Unit := hashMessage order 12 4 p

theorem does_hashCode (order : NibbleOrder) (p : Primitives) :
    Machine.Does p .standard (hashCode order) (hashLimbs order p) :=
  does_hashingCode order (show 12 < 2 ^ 32 by decide) (show 4 < 2 ^ 32 by decide) p

theorem exists_hashing_eq (fragment : Fragment) :
    ∃ source, hashing .standard fragment Fragment.messageLength Fragment.limbLength =
      .ok ⟨source, hashCode fragment.emitted⟩ := by
  obtain ⟨source, hsource⟩ := (does_hashCode fragment.emitted .standard).exists_ofCode_eq
  have hcode : fragment.computeScript Fragment.messageLength Fragment.limbLength =
      .ok (hashCode fragment.emitted) :=
    computeScript_eq fragment (show 0 < 12 by decide) (show 0 < 4 by decide)
      (show 12 < 2 ^ 32 by decide) (show 4 < 2 ^ 32 by decide)
  exact ⟨source, by rw [hashing, bind_of_eq_ok hcode, hsource]⟩

/-! ### Keeping the leading nibbles -/

/-- The byte code that keeps the leading nibbles. -/
def truncationCode (needed rest : Nat) : NibbleOrder → Bytes
  | .firstDeepest => List.replicate rest 0x75
  | .firstOnTop =>
    List.replicate needed 0x6b ++ List.replicate rest 0x75 ++ List.replicate needed 0x6c

/-- Drops all nibbles but the leading ones. -/
def truncate (needed rest : Nat) (order : NibbleOrder) (p : Primitives) : Exec Unit :=
  match order with
  | .firstDeepest => Exec.times rest (drop.act p [])
  | .firstOnTop => do
    (do Exec.times needed (toAlt.act p []); Exec.times rest (drop.act p []))
    Exec.times needed (fromAlt.act p [])

theorem writes_truncation (needed rest : Nat) (order : NibbleOrder) :
    Writes (truncationSymbols needed rest order) (truncationCode needed rest order)
      (truncate needed rest order) := by
  have htoAlt : (0x6b, "OP_TOALTSTACK", toAlt) ∈ OpTable.basicOperations := by decide +kernel
  have hfromAlt : (0x6c, "OP_FROMALTSTACK", fromAlt) ∈ OpTable.basicOperations := by
    decide +kernel
  cases order with
  | firstDeepest => exact writes_drop.replicate rest
  | firstOnTop =>
    -- The leading nibbles lie on top of the others and have to make way.
    exact (((writes_of_mem htoAlt rfl).replicate needed).append (writes_drop.replicate rest)).append
      ((writes_of_mem hfromAlt rfl).replicate needed)

theorem exists_truncation_eq {needed width : Nat} (h : needed ≤ width) (order : NibbleOrder) :
    ∃ source, truncation .standard needed order width =
      .ok ⟨source, truncationCode needed (width - needed) order⟩ := by
  -- The prefix fits the width, so the number of nibbles to drop is no negative one.
  have hrange : (0 : Int) ≤ needed ∧ (needed : Int) ≤ width := by omega
  have hrest : ((width : Int) - (needed : Int)).toNat = width - needed := by omega
  have hsymbols := (writes_truncation needed (width - needed) order).spells.ofSymbols_eq
  refine ⟨" ".intercalate (truncationSymbols needed (width - needed) order), ?_⟩
  rw [← hsymbols]
  simp [truncation, hrange, hrest, bind, Except.bind]

/-! ### Comparing the nibbles -/

/-- The byte code that compares nibbles, the topmost first. -/
def matchCode (nibbles : List Nat) : Bytes :=
  nibbles.flatMap fun n : Nat => Push.number n ++ [0x88]

/-- Takes one item after the other and fails at the first that is not the expected nibble. -/
def matchNibbles (nibbles : List Nat) (p : Primitives) : Exec Unit :=
  forM nibbles fun n : Nat => do
    Exec.push (ScriptNumber.encode n)
    equalVerify.act p []

theorem writes_match {nibbles : List Nat} (h : ∀ n ∈ nibbles, n < 16) :
    Writes (nibbles.flatMap fun n => [toString n, "OP_EQUALVERIFY"]) (matchCode nibbles)
      (matchNibbles nibbles) := by
  have hmem : (0x88, "OP_EQUALVERIFY", equalVerify) ∈ OpTable.basicOperations := by decide +kernel
  apply writes_flatMap
  intro n hn
  exact (writes_toString (Nat.lt_trans (h n hn) (by decide))).append (writes_of_mem hmem rfl)

theorem mem_fromTop_iff {order : NibbleOrder} {nibbles : List Nat} {n : Nat} :
    n ∈ fromTop order nibbles ↔ n ∈ nibbles := by
  cases order <;> simp [fromTop, NibbleOrder.arrange]

theorem exists_nibbleMatch_eq {nibbles : List Nat} (h : ∀ n ∈ nibbles, n < 16)
    (order : NibbleOrder) :
    ∃ source, nibbleMatch .standard nibbles order =
      .ok ⟨source, matchCode (fromTop order nibbles)⟩ :=
  ⟨_, (writes_match fun n hn => h n (mem_fromTop_iff.mp hn)).spells.ofSymbols_eq⟩

theorem exists_success_eq : ∃ source, success .standard = .ok ⟨source, [0x51]⟩ :=
  ⟨_, writes_true.spells.ofSymbols_eq⟩

/-- Nibbles are read back from the values that they are given as. -/
theorem mapM_toNibble {nibbles : List Nat} (h : ∀ n ∈ nibbles, n < 16) :
    (nibbles.map fun n : Nat => Value.int n).mapM LockingArgs.toNibble = .ok nibbles :=
  Checked.mapM_nibble_eq_ok_iff.mpr ⟨rfl, h⟩

/-! ### The whole script -/

/-- A locking script is built if all its parts are. -/
theorem lockingScript_eq_ok {t : OpTable} {role : GateRole} {key : Bytes} {nibbles : List Nat}
    {fragment : Fragment} {a b c d e f g : Script} (ha : signatureCheck t key = .ok a)
    (hb : thresholdCheck t role = .ok b) (hc : dropInput t = .ok c)
    (hd : hashing t fragment Fragment.messageLength Fragment.limbLength = .ok d)
    (he : truncation t nibbles.length fragment.order fragment.digestNibbles = .ok e)
    (hf : nibbleMatch t nibbles fragment.order = .ok f) (hg : success t = .ok g) :
    lockingScript t role (.ok key) nibbles.length (.ok nibbles) fragment =
      .ok (Script.concat [a, b, c, d, e, f, g]) := by
  simp only [lockingScript, ha, hb, hc, hd, he, hf, hg, bind, Except.bind, pure, Except.pure]

variable (g : Gate)

/-- The arguments of the locking script of a gate for a fragment. -/
def argsOf (fragment : Fragment) : LockingArgs := .ofFragment g.role g.key fragment g.nibbles

/-- The byte code of the locking script of a gate for a hash that emits an order and declares a
width. -/
def codeEmitting (emitted : NibbleOrder) (width : Nat) : Bytes :=
  signatureCode g.key ++ (thresholdCode g.role ++ ([0x75] ++ (hashCode emitted ++
    (truncationCode g.nibbles.length (width - g.nibbles.length) g.order ++
      (matchCode (fromTop g.order g.nibbles) ++ [0x51])))))

/-- The action of that locking script. -/
def passEmitting (emitted : NibbleOrder) (width : Nat) (p : Primitives) : Exec Unit := do
  checkSignature g.key p
  compareThreshold g.role p
  drop.act p []
  hashLimbs emitted p
  truncate g.nibbles.length (width - g.nibbles.length) g.order p
  matchNibbles (fromTop g.order g.nibbles) p
  Exec.push (ScriptNumber.encode (1 : Nat))

/-- The arguments of the locking script of a gate for a hash that declares a width. -/
def argsOfWidth (width : Nat) : LockingArgs := g.argsOf (.limbwise g.order width)

/-- The byte code of that locking script. -/
def codeOfWidth (width : Nat) : Bytes := g.codeEmitting g.order width

/-- The action of that locking script. -/
def passOfWidth (width : Nat) (p : Primitives) : Exec Unit := g.passEmitting g.order width p

/-- The arguments of the locking script of a gate. -/
def args : LockingArgs := g.argsOfWidth 64

/-- The byte code of the locking script of a gate. -/
def code : Bytes := g.codeOfWidth 64

/-- The action of the locking script of a gate. -/
def pass (p : Primitives) : Exec Unit := g.passOfWidth 64 p

/-- The parts of the byte code of the locking script of a gate. -/
theorem code_eq :
    g.code = signatureCode g.key ++ (thresholdCode g.role ++ ([0x75] ++ (hashCode g.order ++
      (truncationCode g.nibbles.length (64 - g.nibbles.length) g.order ++
        (matchCode (fromTop g.order g.nibbles) ++ [0x51]))))) :=
  rfl

theorem lt_of_mem_fromTop : ∀ n ∈ fromTop g.order g.nibbles, n < 16 :=
  fun n hn => g.lt_of_mem_nibbles n (mem_fromTop_iff.mp hn)

theorem length_key_le : g.key.length ≤ Push.maxLength := by
  rw [g.length_key]
  decide

/-- The byte code of a gate does its action, whatever the hash emits and declares. -/
theorem does_codeEmitting (emitted : NibbleOrder) (width : Nat) (p : Primitives) :
    Machine.Does p .standard (g.codeEmitting emitted width) (g.passEmitting emitted width p) := by
  have ht := OpTable.aligned_standard
  refine ((writes_signature g.length_key_le).does p).append ht ?_
  refine ((writes_threshold g.role).does p).append ht ?_
  refine (writes_drop.does p).append ht ?_
  refine (does_hashCode emitted p).append ht ?_
  refine ((writes_truncation _ _ g.order).does p).append ht ?_
  exact ((writes_match g.lt_of_mem_fromTop).does p).append ht (writes_true.does p)

theorem does_codeOfWidth (width : Nat) (p : Primitives) :
    Machine.Does p .standard (g.codeOfWidth width) (g.passOfWidth width p) :=
  g.does_codeEmitting g.order width p

/-- The byte code of a gate does its action. -/
theorem does_code (p : Primitives) : Machine.Does p .standard g.code (g.pass p) :=
  g.does_codeOfWidth 64 p

/-- The locking script of a gate is built for every fragment that declares its order and a width
that the nibbles fit. The order that the fragment emits shows in the hash alone. -/
theorem exists_build_argsOf_eq {fragment : Fragment} {width : Nat}
    (horder : fragment.order = g.order) (hwidth : fragment.digestNibbles = width)
    (h : g.nibbles.length ≤ width) :
    ∃ locking, (g.argsOf fragment).build .standard = .ok locking ∧
      locking.code = g.codeEmitting fragment.emitted width := by
  -- For the arguments of a gate none of the seven parts fails.
  obtain ⟨s₁, hsignature⟩ := exists_signatureCheck_eq g.length_key
  obtain ⟨s₂, hthreshold⟩ := exists_thresholdCheck_eq g.role
  obtain ⟨s₃, hdrop⟩ := exists_dropInput_eq
  obtain ⟨s₄, hhash⟩ := exists_hashing_eq fragment
  obtain ⟨s₅, htruncation⟩ := exists_truncation_eq h g.order
  obtain ⟨s₆, hmatch⟩ := exists_nibbleMatch_eq g.lt_of_mem_nibbles g.order
  obtain ⟨s₇, hsuccess⟩ := exists_success_eq
  have hbuild := lockingScript_eq_ok hsignature hthreshold hdrop hhash
    (by rw [horder, hwidth, htruncation]) (by rw [horder, hmatch]) hsuccess
  have hnibbles := mapM_toNibble g.lt_of_mem_nibbles
  refine ⟨Script.concat [⟨s₁, signatureCode g.key⟩, ⟨s₂, thresholdCode g.role⟩, ⟨s₃, [0x75]⟩,
      ⟨s₄, hashCode fragment.emitted⟩,
      ⟨s₅, truncationCode g.nibbles.length (width - g.nibbles.length) g.order⟩,
      ⟨s₆, matchCode (fromTop g.order g.nibbles)⟩, ⟨s₇, [0x51]⟩], ?_, ?_⟩
  · rw [← hbuild, LockingArgs.build, argsOf, LockingArgs.ofFragment, hnibbles, List.length_map]
    rfl
  · simp [Script.code_concat, codeEmitting]

/-- The locking script of a gate is built for every width that the nibbles fit. -/
theorem exists_build_ofWidth_eq {width : Nat} (h : g.nibbles.length ≤ width) :
    ∃ locking, (g.argsOfWidth width).build .standard = .ok locking ∧
      locking.code = g.codeOfWidth width :=
  g.exists_build_argsOf_eq rfl rfl h

/-- The locking script of a gate is built, and has the byte code of the gate. -/
theorem exists_build_eq :
    ∃ locking, g.args.build .standard = .ok locking ∧ locking.code = g.code :=
  g.exists_build_ofWidth_eq g.length_nibbles_le

variable {g}

/-- Whatever is built for a gate has the byte code of the gate. -/
theorem code_of_build_eq_ok {locking : Script} (h : g.args.build .standard = .ok locking) :
    locking.code = g.code := by
  obtain ⟨other, hbuild, hcode⟩ := g.exists_build_eq
  rw [h] at hbuild
  rw [Except.ok.inj hbuild, hcode]

end Gate

end FlowGate
