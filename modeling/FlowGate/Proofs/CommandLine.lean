import FlowGate.CommandLine
import FlowGate.Proofs.Assembly.RoundTrip
import FlowGate.Proofs.Flow.Window
import FlowGate.Proofs.Gate.Layout

/-!
# What the command line overlooks

Bad arguments should end a run with a message and the help. The checks of the methods see to that
for almost all arguments. They overlook three kinds: an argument of digit characters that is not
read as an integer, an input that does not fit into 32 bits, and byte code that ends inside a push.
On these the run fails, and on no others: whatever passes the checks otherwise is accepted by the
search, by the locking script and by the disassembler.

## Main definitions

* `CommandLine.Outcome.IsHandled` — a run ends well, or with a message and the help
* `CommandLine.Unreadable` — arguments that are not read as integers, with the failure
* `CommandLine.Overlooked` — arguments that pass the checks, with the failure behind them

## Main results

* `CommandLine.readInteger_eq_error_iff` — when an argument is not read as an integer
* `CommandLine.find_eq_error_iff`, `CommandLine.lock_eq_error_iff`,
  `CommandLine.decompile_eq_error_iff` — how the methods fail
* `CommandLine.run_isHandled_iff` — all methods that do not measure or demonstrate
-/

namespace FlowGate

theorem mapM_eq_none_iff {α β : Type} {f : α → Option β} {xs : List α} :
    xs.mapM f = none ↔ ∃ x ∈ xs, f x = none := by
  induction xs with
  | nil => simp
  | cons x xs ih =>
    rw [List.mapM_cons]
    cases hx : f x with
    | none => simp [hx]
    | some y => cases hxs : xs.mapM f <;> simp_all

theorem length_publicKey (seed : Bytes) :
    (Ed25519.publicKey seed).length = Primitives.keyLength :=
  Bytes.length_ofNat 32 _

namespace CommandLine

/-! ### Outcomes -/

/-- A run ends well, or with a message and the help. -/
inductive Outcome.IsHandled (program : String) : Outcome → Prop
  | done (printed : String) : IsHandled program (.exit 0 printed)
  | refused (message : String) : IsHandled program (.exit 1 (print (message :: help program)))

variable {stop : Stop} {fault : Error}

/-- A method stops for another reason than a message for the user. -/
def Stop.IsSilent (stop : Stop) : Prop := ∀ message, stop ≠ .usage message

theorem isSilent_failure (fault : Error) : (Stop.failure fault).IsSilent :=
  fun _ h => by cases h

theorem isSilent_measure (seconds : UInt64) : (Stop.measure seconds).IsSilent :=
  fun _ h => by cases h

theorem Stop.IsSilent.usage_ne {α : Type} (h : stop.IsSilent) (message : String) :
    (.error (.usage message) : Except Stop α) ≠ .error stop :=
  fun heq => h message (Except.error.inj heq).symm

theorem attempt_eq_ok_iff {α : Type} {x : Except Error α} {a : α} :
    attempt x = .ok a ↔ x = .ok a := by
  cases x <;> simp [attempt]

theorem attempt_eq_error_iff {α : Type} {x : Except Error α} :
    attempt x = .error stop ↔ ∃ fault, x = .error fault ∧ stop = .failure fault := by
  cases x <;> simp [attempt, eq_comm]

/-- Behind a check a method goes on only if the check passes. -/
theorem demand_bind_eq_ok_iff {α : Type} {condition : Bool} {message : String}
    {f : Unit → Except Stop α} {a : α} :
    (demand condition message >>= f) = .ok a ↔ condition = true ∧ f () = .ok a := by
  cases condition <;> simp [demand, bind, Except.bind]

/-- Behind a check a method stops silently only if the check passes. -/
theorem Stop.IsSilent.demand_bind_eq_error_iff {α : Type} (h : stop.IsSilent) {condition : Bool}
    {message : String} {f : Unit → Except Stop α} :
    (demand condition message >>= f) = .error stop ↔ condition = true ∧ f () = .error stop := by
  cases condition with
  | true => simp [demand, bind, Except.bind]
  | false => exact iff_of_false (h.usage_ne message) (by simp)

/-! ### Integers -/

/-- The decimal digits at the start of an argument. -/
def leadingDigits (argument : String) : List Char :=
  argument.toList.takeWhile fun c => (Text.decimalValue? c).isSome

/-- An argument is not read as an integer: there are too many decimal digits at its start, or some
character is not a decimal digit. -/
inductive Unreadable (argument : String) : Error → Prop
  | tooLong (h : maxLiteralDigits < (leadingDigits argument).length) :
      Unreadable argument (.invalid (.literalTooLong (leadingDigits argument).length))
  | notDecimal (h : (leadingDigits argument).length ≤ maxLiteralDigits) {c : Char}
      (hmem : c ∈ argument.toList) (hc : Text.decimalValue? c = none) :
      Unreadable argument (.invalid (.badInteger argument))

/-- Reading an argument as an integer fails exactly if it is unreadable. -/
theorem readInteger_eq_error_iff {argument : String} :
    readInteger argument = .error fault ↔ Unreadable argument fault := by
  rw [readInteger]
  change (ensure (decide ((leadingDigits argument).length ≤ maxLiteralDigits)) _ >>= _) = _ ↔ _
  -- The limit on the length comes first, so the digits matter only within it.
  by_cases hlength : (leadingDigits argument).length ≤ maxLiteralDigits
  · rw [decide_eq_true hlength, ensure_true, bind_of_eq_ok rfl]
    cases hdigits : argument.toList.mapM Text.decimalValue? with
    | none =>
      obtain ⟨c, hmem, hc⟩ := mapM_eq_none_iff.mp hdigits
      constructor
      · intro h
        obtain rfl := Except.error.inj h
        exact .notDecimal hlength hmem hc
      · rintro (hlong | -)
        · omega
        · rfl
    | some digits =>
      constructor
      · intro h
        cases h
      · rintro (hlong | ⟨-, hmem, hc⟩)
        · omega
        · have hnone := mapM_eq_none_iff.mpr ⟨_, hmem, hc⟩
          rw [hdigits] at hnone
          cases hnone
  · rw [decide_eq_false hlength, ensure_false]
    constructor
    · intro h
      obtain rfl := Except.error.inj h
      exact .tooLong (by omega)
    · rintro (- | hshort)
      · rfl
      · omega

/-- What is read is a natural number. -/
theorem exists_eq_natCast_of_readInteger_eq_ok {argument : String} {n : Int}
    (h : readInteger argument = .ok n) : ∃ k : Nat, n = k := by
  obtain ⟨u, -, h⟩ := bind_ok_iff.mp h
  cases hdigits : argument.toList.mapM Text.decimalValue? with
  | none =>
    rw [hdigits] at h
    cases h
  | some digits =>
    rw [hdigits] at h
    exact ⟨_, (Except.ok.inj h).symm⟩

/-! ### Bad arguments -/

/-- Three arguments that consist of digit characters. -/
def AreDigits (b l input : String) : Prop :=
  ∀ argument ∈ [b, l, input], isDigits argument = true

instance (b l input : String) : Decidable (AreDigits b l input) :=
  inferInstanceAs (Decidable (∀ argument ∈ [b, l, input], isDigits argument = true))

/-- The arguments behind those of a search start with a seed, if there are any. -/
def StartWithSeed (arguments : List String) : Prop :=
  ∀ argument ∈ arguments.head?, ∃ seed, readHex? argument = some seed ∧
    seed.length = Signer.seedLength

/-- The arguments of a search that pass its checks, and yet the search fails: one of them is the
first that is not read as an integer, or the input is too large. -/
inductive OverlookedSearch (b l input : String) (others : List String) : Error → Prop
  | number (hdigits : AreDigits b l input) {before after : List String} {argument : String}
      (hsplit : [b, l, input] = before ++ argument :: after)
      (hread : ∀ other ∈ before, ∃ n, readInteger other = .ok n) {fault : Error}
      (hfault : Unreadable argument fault) : OverlookedSearch b l input others fault
  | input (hdigits : AreDigits b l input) {m n k : Nat} (hb : readInteger b = .ok (m : Int))
      (hl : readInteger l = .ok (n : Int)) (hinput : readInteger input = .ok (k : Int))
      (hothers : StartWithSeed others) (hwidth : m ≤ 32) (hmultiple : m % 8 = 0) (hle : n ≤ m)
      (hlarge : 2 ^ 32 ≤ k) : OverlookedSearch b l input others (.invalid (.tooWide "input" 32))

/-- The arguments pass the checks of their method, and yet the method fails. -/
inductive Overlooked (arguments : List String) : Error → Prop
  | find {b l input : String} {others : List String} {fault : Error}
      (hmethod : arguments = "find" :: b :: l :: input :: others)
      (h : OverlookedSearch b l input [] fault) : Overlooked arguments fault
  | lock {name b l input : String} {others : List String} {fault : Error}
      (hmethod : arguments = "lock" :: name :: b :: l :: input :: others)
      (hrole : (GateRole.ofName? (String.ofList (Text.upper name.toList))).isSome = true)
      (h : OverlookedSearch b l input others fault) : Overlooked arguments fault
  | decompile {argument : String} {others : List String} {code : Bytes}
      (hmethod : arguments = "decompile" :: argument :: others)
      (hread : readHex? argument = some code) (hcut : EndsInsidePush code) :
      Overlooked arguments (.execution .readPastEnd)

theorem Overlooked.two_le_length {arguments : List String} (h : Overlooked arguments fault) :
    2 ≤ arguments.length := by
  obtain ⟨rfl, -⟩ | ⟨rfl, -⟩ | ⟨rfl, -⟩ := h <;> simp

theorem Overlooked.head?_mem {arguments : List String} (h : Overlooked arguments fault) :
    arguments.head? ∈ [some "find", some "lock", some "decompile"] := by
  obtain ⟨rfl, -⟩ | ⟨rfl, -⟩ | ⟨rfl, -⟩ := h <;> simp

/-! ### The arguments of a search -/

theorem areDigits_iff {b l input : String} :
    (isDigits b && isDigits l && isDigits input) = true ↔ AreDigits b l input := by
  simp [AreDigits, and_assoc]

/-- Three arguments of digit characters are not numbers if one of them is not read. -/
theorem readThree_eq_error_iff (h : stop.IsSilent) {b l input : String} (others : List String) :
    readThree (b :: l :: input :: others) = .error stop ↔ AreDigits b l input ∧
      ∃ fault, [b, l, input].mapM readInteger = .error fault ∧ stop = .failure fault := by
  rw [readThree, h.demand_bind_eq_error_iff, areDigits_iff]
  simp only [List.mapM_cons, List.mapM_nil]
  cases readInteger b <;> cases readInteger l <;> cases readInteger input <;>
    simp [attempt, bind, Except.bind, pure, Except.pure, @eq_comm _ _ stop]

theorem readThree_eq_ok_iff {b l input : String} (others : List String) {m n k : Int} :
    readThree (b :: l :: input :: others) = .ok (m, n, k) ↔ AreDigits b l input ∧
      readInteger b = .ok m ∧ readInteger l = .ok n ∧ readInteger input = .ok k := by
  rw [readThree, demand_bind_eq_ok_iff, areDigits_iff]
  cases readInteger b <;> cases readInteger l <;> cases readInteger input <;>
    simp [attempt, bind, Except.bind, pure, Except.pure]

/-- What is read as a seed is at the start of the arguments, or is chance if there are none. -/
theorem startWithSeed_of_readSeed_eq_ok {chance seed : Bytes} {others : List String}
    (hchance : chance.length = Signer.seedLength) (h : readSeed chance others = .ok seed) :
    StartWithSeed others ∧ seed.length = Signer.seedLength := by
  cases others with
  | nil =>
    obtain rfl := Except.ok.inj h
    exact ⟨by simp [StartWithSeed], hchance⟩
  | cons argument others =>
    rw [readSeed] at h
    cases hread : readHex? argument with
    | none => simp [hread] at h
    | some other =>
      simp only [hread, demand_bind_eq_ok_iff, beq_iff_eq] at h
      obtain ⟨hlength, heq⟩ := h
      obtain rfl := Except.ok.inj heq
      exact ⟨by simp [StartWithSeed, hread, hlength], hlength⟩

/-- A seed is read of arguments that start with one, and of none. -/
theorem StartWithSeed.exists_readSeed_eq {others : List String} (h : StartWithSeed others)
    (chance : Bytes) : ∃ seed, readSeed chance others = .ok seed := by
  cases others with
  | nil => exact ⟨chance, rfl⟩
  | cons argument others =>
    obtain ⟨seed, hread, hlength⟩ := h argument rfl
    refine ⟨seed, ?_⟩
    simp only [readSeed, hread, demand_bind_eq_ok_iff, beq_iff_eq]
    exact ⟨hlength, rfl⟩

theorem Stop.IsSilent.readSeed_ne_error (h : stop.IsSilent) (chance : Bytes)
    (others : List String) : readSeed chance others ≠ .error stop := by
  cases others with
  | nil => simp [readSeed]
  | cons argument others =>
    rw [readSeed]
    cases readHex? argument with
    | none => exact h.usage_ne _
    | some seed =>
      simp only [ne_eq, h.demand_bind_eq_error_iff, not_and]
      intro hlength
      simp [pure, Except.pure]

variable {p : Primitives}

theorem widths_iff {b : Nat} :
    (decide ((b : Int) ≤ 32) && (b : Int) % 8 == 0) = true ↔ b ≤ 32 ∧ b % 8 = 0 := by
  rw [Bool.and_eq_true, decide_eq_true_eq, beq_iff_eq]
  omega

/-- A search with admitted widths fails if the input is too large. It may also give up, and then it
says so to the user. -/
theorem findNonce_eq_error_iff (h : stop.IsSilent) {b l input : Nat} :
    findNonce p input b l = .error stop ↔ (b ≤ 32 ∧ b % 8 = 0) ∧ l ≤ b ∧ 2 ^ 32 ≤ input ∧
      stop = .failure (.invalid (.tooWide "input" 32)) := by
  rw [findNonce, h.demand_bind_eq_error_iff, h.demand_bind_eq_error_iff, widths_iff,
    decide_eq_true_eq, Int.ofNat_le]
  refine and_congr_right fun _ => and_congr_right fun _ => ?_
  -- A search for an input of 32 bits can only give up.
  by_cases hinput : input < 2 ^ 32
  · have hfits : ¬ 2 ^ 32 ≤ input := Nat.not_le_of_lt hinput
    cases hfind : Flow.findNonce p.hash input b l 0 Flow.defaultFactor with
    | ok found => simp [hfits, pure, Except.pure]
    | error fault =>
      obtain ⟨-, rfl⟩ := (@Flow.findNonce_eq_error_iff p.hash input 0 b l 100 hinput
        (Nat.two_pow_pos 64) fault).mp hfind
      exact iff_of_false (h.usage_ne _) (by simp [hfits])
  · have hlarge : 2 ^ 32 ≤ input := Nat.le_of_not_lt hinput
    have hfind : Flow.findNonce p.hash input b l 0 Flow.defaultFactor = _ :=
      Flow.findNonce_of_le hlarge b l 0 100
    rw [hfind]
    simp [hlarge, @eq_comm _ _ stop]

/-- A search that finds a nonce had an admitted width, and the flow id fits into a word. -/
theorem flowId_lt_of_findNonce_eq_ok {b l input : Nat} {found : Selection}
    (h : findNonce p input b l = .ok found) :
    (b ≤ 32 ∧ b % 8 = 0) ∧ found.flowId < 2 ^ 32 := by
  rw [findNonce, demand_bind_eq_ok_iff, demand_bind_eq_ok_iff, widths_iff, decide_eq_true_eq,
    Int.ofNat_le] at h
  obtain ⟨hwidths, hle, h⟩ := h
  refine ⟨hwidths, ?_⟩
  cases hfind : Flow.findNonce p.hash input b l 0 Flow.defaultFactor with
  | error fault => cases fault <;> simp [hfind] at h
  | ok other =>
    obtain rfl : other = found := by simpa [hfind, pure, Except.pure] using h
    -- A larger input is no input of a search, so nothing would be found.
    have hinput : input < 2 ^ 32 := by
      by_contra hlarge
      have hfault : Flow.findNonce p.hash input b l 0 Flow.defaultFactor = _ :=
        Flow.findNonce_of_le (Nat.le_of_not_lt hlarge) b l 0 100
      rw [hfault] at hfind
      cases hfind
    obtain ⟨hselect, hleast⟩ := (@Flow.findNonce_eq_ok_iff p.hash input 0 b l 100 other hinput
      (Nat.two_pow_pos 64)).mp hfind
    obtain ⟨-, -, hlt, -⟩ :=
      Flow.eq_of_select_eq_ok hinput (Flow.lt_of_mem_window hleast.1.1) hselect
    have hpow : 2 ^ l ≤ 2 ^ 32 := Nat.pow_le_pow_right (by decide) (by omega)
    omega

/-! ### The methods -/

/-- A method that starts with three integers fails on what is overlooked, if what it does behind
reading them fails only on inputs that are too large. -/
theorem search_eq_error_iff (h : stop.IsSilent) {arguments seeds : List String}
    {rest : Int × Int × Int → Method}
    (hrest : ∀ m n k : Nat, rest (m, n, k) = .error stop ↔ StartWithSeed seeds ∧
      (m ≤ 32 ∧ m % 8 = 0) ∧ n ≤ m ∧ 2 ^ 32 ≤ k ∧
        stop = .failure (.invalid (.tooWide "input" 32))) :
    (readThree arguments >>= rest) = .error stop ↔ ∃ fault, (∃ b l input others,
      arguments = b :: l :: input :: others ∧ OverlookedSearch b l input seeds fault) ∧
        stop = .failure fault := by
  match arguments with
  | [] | [_] | [_, _] => exact iff_of_false (h.usage_ne _) (by simp)
  | b :: l :: input :: others =>
    rw [bind_eq_error_iff, readThree_eq_error_iff h]
    constructor
    · -- Either there is a first argument that is not read, or all three are natural numbers.
      rintro (⟨hdigits, fault, hread, rfl⟩ | ⟨⟨x, y, z⟩, hthree, hfails⟩)
      · obtain ⟨before, argument, after, hsplit, hbefore, hfault⟩ := mapM_eq_error_iff.mp hread
        exact ⟨fault, ⟨b, l, input, others, rfl,
          .number hdigits hsplit hbefore (readInteger_eq_error_iff.mp hfault)⟩, rfl⟩
      · obtain ⟨hdigits, hb, hl, hinput⟩ := (readThree_eq_ok_iff others).mp hthree
        obtain ⟨m, rfl⟩ := exists_eq_natCast_of_readInteger_eq_ok hb
        obtain ⟨n, rfl⟩ := exists_eq_natCast_of_readInteger_eq_ok hl
        obtain ⟨k, rfl⟩ := exists_eq_natCast_of_readInteger_eq_ok hinput
        obtain ⟨hseeds, ⟨hwidth, hmultiple⟩, hle, hlarge, rfl⟩ := (hrest m n k).mp hfails
        exact ⟨_, ⟨b, l, input, others, rfl,
          .input hdigits hb hl hinput hseeds hwidth hmultiple hle hlarge⟩, rfl⟩
    · -- Each fault that is overlooked comes up where it is read or used.
      rintro ⟨fault, ⟨_, _, _, _, hsame, hover⟩, rfl⟩
      obtain ⟨rfl, rfl, rfl, rfl⟩ : _ ∧ _ ∧ _ ∧ _ := by simpa using hsame
      cases hover with
      | number hdigits hsplit hbefore hfault =>
        have hread := mapM_eq_error_iff.mpr
          ⟨_, _, _, hsplit, hbefore, readInteger_eq_error_iff.mpr hfault⟩
        exact .inl ⟨hdigits, fault, hread, rfl⟩
      | input hdigits hb hl hinput hseeds hwidth hmultiple hle hlarge =>
        have hthree := (readThree_eq_ok_iff others).mpr ⟨hdigits, hb, hl, hinput⟩
        exact .inr ⟨_, hthree,
          (hrest _ _ _).mpr ⟨hseeds, ⟨hwidth, hmultiple⟩, hle, hlarge, rfl⟩⟩

theorem overlooked_find_iff {arguments : List String} :
    Overlooked ("find" :: arguments) fault ↔ ∃ b l input others,
      arguments = b :: l :: input :: others ∧ OverlookedSearch b l input [] fault := by
  constructor
  · rintro (⟨hmethod, hover⟩ | ⟨hmethod, -⟩ | hmethod)
    · exact ⟨_, _, _, _, (List.cons.inj hmethod).2, hover⟩
    · simp at hmethod
    · simp at hmethod
  · rintro ⟨b, l, input, others, rfl, hover⟩
    exact .find rfl hover

/-- Finding a nonce fails on overlooked arguments only. -/
theorem find_eq_error_iff (h : stop.IsSilent) {arguments : List String} :
    find p arguments = .error stop ↔
      ∃ fault, Overlooked ("find" :: arguments) fault ∧ stop = .failure fault := by
  simp only [overlooked_find_iff]
  refine search_eq_error_iff h fun m n k => ?_
  have hseeds : StartWithSeed [] := by simp [StartWithSeed]
  rw [bind_eq_error_iff]
  simp [findNonce_eq_error_iff h, hseeds, pure, Except.pure]

theorem overlooked_lock_iff {name : String} {arguments : List String} :
    Overlooked ("lock" :: name :: arguments) fault ↔
      (GateRole.ofName? (String.ofList (Text.upper name.toList))).isSome = true ∧
        ∃ b l input others, arguments = b :: l :: input :: others ∧
          OverlookedSearch b l input (arguments.drop 3) fault := by
  constructor
  · rintro (⟨hmethod, -⟩ | ⟨hmethod, hrole, hover⟩ | hmethod)
    · simp at hmethod
    · obtain ⟨rfl, rfl⟩ := List.cons.inj (List.cons.inj hmethod).2
      exact ⟨hrole, _, _, _, _, rfl, hover⟩
    · simp at hmethod
  · rintro ⟨hrole, b, l, input, others, rfl, hover⟩
    exact .lock rfl hrole hover

theorem overlooked_decompile_iff {argument : String} {others : List String} :
    Overlooked ("decompile" :: argument :: others) fault ↔ ∃ code,
      readHex? argument = some code ∧ EndsInsidePush code ∧ fault = .execution .readPastEnd := by
  constructor
  · rintro (⟨hmethod, -⟩ | ⟨hmethod, -⟩ | ⟨hmethod, hread, hcut⟩)
    · simp at hmethod
    · simp at hmethod
    · obtain ⟨rfl, -⟩ := List.cons.inj (List.cons.inj hmethod).2
      exact ⟨_, hread, hcut, rfl⟩
  · rintro ⟨code, hread, hcut, rfl⟩
    exact .decompile rfl hread hcut

/-- With a seed there is a signer, so a method that signs fails where it does so behind that. -/
theorem signer_eq_error_iff (h : stop.IsSilent) {chance : Bytes}
    (hchance : chance.length = Signer.seedLength) {others : List String} {rest : Signer → Method}
    {P : Prop} (hrest : ∀ signer : Signer, signer.key.length = Primitives.keyLength →
      (rest signer = .error stop ↔ P)) :
    (do rest (← attempt (Signer.ofSeed (← readSeed chance others)))) = .error stop ↔
      StartWithSeed others ∧ P := by
  have hsigner : ∀ seed : Bytes, seed.length = Signer.seedLength →
      attempt (Signer.ofSeed seed) = .ok ⟨Ed25519.publicKey seed, Ed25519.sign seed⟩ := by
    intro seed hseed
    rw [Signer.ofSeed, hseed]
    rfl
  -- Whatever seed is read, it has the length of a seed and makes a signer.
  have hbehind : ∀ seed : Bytes, seed.length = Signer.seedLength →
      ((attempt (Signer.ofSeed seed) >>= rest) = .error stop ↔ P) := by
    intro seed hseed
    rw [bind_of_eq_ok (hsigner seed hseed)]
    exact hrest _ (length_publicKey seed)
  constructor
  · intro hfails
    rcases bind_eq_error_iff.mp hfails with hseed | ⟨seed, hseed, hfails⟩
    · exact absurd hseed (h.readSeed_ne_error chance others)
    · obtain ⟨hstart, hlength⟩ := startWithSeed_of_readSeed_eq_ok hchance hseed
      exact ⟨hstart, (hbehind seed hlength).mp hfails⟩
  · rintro ⟨hstart, hP⟩
    obtain ⟨seed, hseed⟩ := hstart.exists_readSeed_eq chance
    obtain ⟨-, hlength⟩ := startWithSeed_of_readSeed_eq_ok hchance hseed
    exact bind_eq_error_iff.mpr (.inr ⟨seed, hseed, (hbehind seed hlength).mpr hP⟩)

/-- The locking script of a role is built for a key and nibbles. -/
theorem exists_lockingScript_eq (role : GateRole) {key : Bytes} {nibbles : List Nat}
    (hkey : key.length = Primitives.keyLength) (hcount : nibbles.length ≤ 64)
    (hnibbles : ∀ n ∈ nibbles, n < 16) :
    ∃ script, lockingScript .standard role key nibbles = .ok script := by
  obtain ⟨script, hscript, -⟩ :=
    Gate.exists_build_eq ⟨role, key, nibbles, .firstDeepest, hkey, hcount, hnibbles⟩
  exact ⟨script, hscript⟩

/-- Behind a nonce that is found the locking script never fails to be printed. -/
theorem printing_ne_error {m n k : Nat} {found : Selection}
    (hfound : findNonce p k m n = .ok found) (role : GateRole) {signer : Signer}
    (hkey : signer.key.length = Primitives.keyLength) (lines : Script → List String) :
    (do
      let nibbles ← attempt (Flow.idNibbles found.flowId m)
      let script ← attempt (lockingScript .standard role signer.key nibbles)
      return lines script : Method) ≠ .error stop := by
  obtain ⟨⟨hwidth, hmultiple⟩, hflowId⟩ := flowId_lt_of_findNonce_eq_ok hfound
  obtain ⟨nibbles, hnibbles, hcount, hrange⟩ := Flow.exists_idNibbles_eq hwidth hmultiple hflowId
  obtain ⟨script, hscript⟩ := exists_lockingScript_eq role hkey hcount hrange
  rw [bind_of_eq_ok (attempt_eq_ok_iff.mpr hnibbles), bind_of_eq_ok (attempt_eq_ok_iff.mpr hscript)]
  simp [pure, Except.pure]

/-- Printing a locking script fails on overlooked arguments only. -/
theorem lock_eq_error_iff (h : stop.IsSilent) {chance : Bytes}
    (hchance : chance.length = Signer.seedLength) {arguments : List String} :
    lock p .standard chance arguments = .error stop ↔
      ∃ fault, Overlooked ("lock" :: arguments) fault ∧ stop = .failure fault := by
  match arguments with
  | [] =>
    refine iff_of_false (h.usage_ne _) ?_
    rintro ⟨fault, hover, -⟩
    simpa using hover.two_le_length
  | name :: arguments =>
    simp only [overlooked_lock_iff]
    rw [lock]
    cases GateRole.ofName? (String.ofList (Text.upper name.toList)) with
    | none => exact iff_of_false (h.usage_ne _) (by simp)
    | some role =>
      simp only [Option.isSome_some, true_and]
      refine search_eq_error_iff h fun m n k => ?_
      refine signer_eq_error_iff h hchance fun signer hkey => ?_
      -- Behind the search nothing can fail any more.
      rw [bind_eq_error_iff, findNonce_eq_error_iff h, or_iff_left]
      rintro ⟨found, hfound, hfails⟩
      exact printing_ne_error hfound role hkey _ hfails

/-- Printing the lines of byte code fails on overlooked arguments only. -/
theorem decompile_eq_error_iff (h : stop.IsSilent) {arguments : List String} :
    decompile .standard arguments = .error stop ↔
      ∃ fault, Overlooked ("decompile" :: arguments) fault ∧ stop = .failure fault := by
  match arguments with
  | [] =>
    refine iff_of_false (h.usage_ne _) ?_
    rintro ⟨fault, hover, -⟩
    simpa using hover.two_le_length
  | argument :: others =>
    simp only [overlooked_decompile_iff]
    rw [decompile]
    cases hread : readHex? argument with
    | none => exact iff_of_false (h.usage_ne _) (by simp)
    | some code =>
      have hcut : ∀ {cause}, ofExec (disassemble .standard code) = .error cause ↔
          EndsInsidePush code ∧ cause = .execution .readPastEnd := by
        intro cause
        refine Checked.disassemble_eq_error_iff.trans ?_
        simp only [OpTable.wellNamed_standard.cut_eq_error_iff .standard, and_assoc,
          exists_eq_left]
      simp only [bind_eq_error_iff, attempt_eq_error_iff, hcut, Option.some.injEq, exists_eq_left',
        and_assoc]
      simp [pure, Except.pure]

/-- The methods that neither measure nor demonstrate fail on overlooked arguments only. -/
theorem method_eq_error_iff (h : stop.IsSilent) {chance : Bytes}
    (hchance : chance.length = Signer.seedLength) {arguments : List String}
    (hmeasure : arguments.head? ≠ some "calibrate") (hdemo : arguments.head? ≠ some "demo")
    (program : String) :
    method p .standard program chance arguments = .error stop ↔
      ∃ fault, Overlooked arguments fault ∧ stop = .failure fault := by
  cases arguments with
  | nil =>
    refine iff_of_false (by simp [method]) ?_
    rintro ⟨fault, hover, -⟩
    simpa using hover.two_le_length
  | cons name arguments =>
    simp only [List.head?_cons, ne_eq, Option.some.injEq] at hmeasure hdemo
    -- Arguments are overlooked only under these three names.
    have hname : ∀ fault, Overlooked (name :: arguments) fault →
        name = "find" ∨ name = "lock" ∨ name = "decompile" := by
      intro fault hover
      simpa using hover.head?_mem
    rw [method]
    by_cases hhelp : ["help", "--help", "?", "-?", "-h"].contains name = true
    · rw [if_pos hhelp]
      refine iff_of_false (by simp) ?_
      rintro ⟨fault, hover, -⟩
      obtain rfl | rfl | rfl := hname fault hover <;> simp at hhelp
    · rw [if_neg hhelp, if_neg hmeasure]
      by_cases hfind : name = "find"
      · rw [if_pos hfind, hfind]
        exact find_eq_error_iff h
      by_cases hlock : name = "lock"
      · rw [if_neg hfind, if_pos hlock, hlock]
        exact lock_eq_error_iff h hchance
      by_cases hdecompile : name = "decompile"
      · rw [if_neg hfind, if_neg hlock, if_pos hdecompile, hdecompile]
        exact decompile_eq_error_iff h
      · rw [if_neg hfind, if_neg hlock, if_neg hdecompile, if_neg hdemo]
        refine iff_of_false (h.usage_ne _) ?_
        rintro ⟨fault, hover, -⟩
        simpa [hfind, hlock, hdecompile] using hname fault hover

/-- A run that neither measures nor demonstrates ends well, or with a message and the help, exactly
if its arguments are not overlooked. On overlooked arguments it fails and prints nothing. -/
theorem run_isHandled_iff (p : Primitives) {chance : Bytes}
    (hchance : chance.length = Signer.seedLength) {arguments : List String}
    (hmeasure : arguments.head? ≠ some "calibrate") (hdemo : arguments.head? ≠ some "demo")
    (program : String) :
    ((run p .standard chance (program :: arguments)).IsHandled program ↔
      ∀ fault, ¬ Overlooked arguments fault) ∧
    ∀ fault, run p .standard chance (program :: arguments) = .failed fault "" ↔
      Overlooked arguments fault := by
  have hfails : ∀ fault, method p .standard program chance arguments = .error (.failure fault) ↔
      Overlooked arguments fault := by
    intro fault
    rw [method_eq_error_iff (isSilent_failure fault) hchance hmeasure hdemo]
    simp
  have hmeasures : ∀ seconds,
      method p .standard program chance arguments ≠ .error (.measure seconds) := by
    intro seconds
    rw [ne_eq, method_eq_error_iff (isSilent_measure seconds) hchance hmeasure hdemo]
    simp
  rw [run, List.headD_cons, List.drop_one, List.tail_cons]
  -- What is left are the ways in which a method can stop.
  simp only [← hfails]
  cases hresult : method p .standard program chance arguments with
  | ok lines => exact ⟨iff_of_true (.done _) (by simp), by simp⟩
  | error stop =>
    cases stop with
    | usage message => exact ⟨iff_of_true (.refused message) (by simp), by simp⟩
    | failure fault =>
      refine ⟨iff_of_false ?_ (by simp), by simp⟩
      intro hhandled
      cases hhandled
    | measure seconds => exact absurd hresult (hmeasures seconds)

/-- A search for the superscript two, and one for a letter. -/
theorem run_isHandled_sample :
    run .standard .standard (List.replicate 32 0) ["flowgate", "find", "8", "8", "²"] =
      .failed (.invalid (.badInteger "²")) "" ∧
    (run .standard .standard (List.replicate 32 0)
      ["flowgate", "find", "8", "8", "x"]).IsHandled "flowgate" := by
  have hchance : (List.replicate 32 (0 : UInt8)).length = Signer.seedLength := rfl
  have hmethod : ∀ input, ["find", "8", "8", input].head? ≠ some "calibrate" ∧
      ["find", "8", "8", input].head? ≠ some "demo" := by simp
  constructor
  · have height : readInteger "8" = .ok 8 := by decide +kernel
    have hunreadable : Unreadable "²" (.invalid (.badInteger "²")) :=
      readInteger_eq_error_iff.mp (by decide +kernel)
    have hover : Overlooked ["find", "8", "8", "²"] (.invalid (.badInteger "²")) :=
      .find rfl (.number (by decide +kernel)
        (show ["8", "8", "²"] = ["8", "8"] ++ "²" :: [] from rfl) (by simp [height]) hunreadable)
    exact ((run_isHandled_iff .standard hchance (hmethod _).1 (hmethod _).2 "flowgate").2 _).mpr
      hover
  · refine (run_isHandled_iff .standard hchance (hmethod _).1 (hmethod _).2 "flowgate").1.mpr ?_
    intro fault hover
    obtain ⟨b, l, input, others, harguments, hsearch⟩ := overlooked_find_iff.mp hover
    obtain ⟨rfl, rfl, rfl, rfl⟩ : _ ∧ _ ∧ _ ∧ _ := by simpa using harguments
    have hdigits : AreDigits "8" "8" "x" := by cases hsearch <;> assumption
    have hx : isDigits "x" = true := hdigits "x" (by simp)
    exact absurd hx (by decide +kernel)

end CommandLine

end FlowGate
