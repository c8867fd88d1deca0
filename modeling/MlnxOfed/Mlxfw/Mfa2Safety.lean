/-
The parsing of an MFA2 file stays inside an image where the TLVs it comes to are right: one whose payload is
taken ends inside the image, header and all, and a multi-part TLV passed over has the length of one.

What the parser comes to is said of the image: of the chains that `mlxfw_mfa2_tlv_next` makes, of their
announced lengths, and of the checks that stop it before.
-/

import MlnxOfed.Mlxfw.Mfa2Loops

namespace MlnxOfed.Mlxfw

open Option Lib

variable {fw : Firmware} {σ ρ : Type}

/-- No NULL pointer is used, and payloads read or returned lie inside the image. -/
def Access.Good (fw : Firmware) : Access → Prop
  | .read offset => offset < fw.size
  | .payload tlv len => tlv + 4 + len ≤ fw.size
  | .deref _ multi => multi ≠ none
  | .null => False

/-! ### The condition on an image -/

/-- A TLV passes the checks of `mlxfw_mfa2_tlv_payload_get`. -/
def Accepts (fw : Firmware) (tlv payloadType payloadSize : Nat) (varsize : Bool) : Prop :=
  validPtr fw (tlv + fw.tlvLen tlv - 1) = true ∧ fw.tlvType tlv = payloadType ∧
    (varsize = true → payloadSize ≤ fw.tlvLen tlv) ∧ (varsize = false → fw.tlvLen tlv = payloadSize)

def IsMulti (fw : Firmware) (tlv : Nat) : Prop := Accepts fw tlv typeMultiPart 4 false

/-- The checks leave out the header: a TLV that passes them may end up to four bytes behind the image. -/
def Fits (fw : Firmware) (tlv payloadType payloadSize : Nat) (varsize : Bool) : Prop :=
  Accepts fw tlv payloadType payloadSize varsize → tlv + 4 + fw.tlvLen tlv ≤ fw.size

/-- `mlxfw_mfa2_tlv_next` uses the payload of a multi-part TLV unchecked. -/
def Passable (fw : Firmware) (tlv : Nat) : Prop :=
  fw.tlvType tlv = typeMultiPart → fw.tlvLen tlv = 4 ∧ tlv + 8 ≤ fw.size

/-- Loops over the children of a multi-part TLV come to this one; with 65536 of them no number is the last.
-/
def IsChild (fw : Firmware) (multi n tlv : Nat) : Prop :=
  passed fw n (multiChild fw multi) = some (some tlv) ∧ (n < fw.announced multi ∨ fw.announced multi = 2 ^ 16)

def isType (fw : Firmware) (multi type n : Nat) : Bool :=
  match passed fw n (multiChild fw multi) with
  | some (some tlv) => fw.tlvType tlv = type
  | _ => false

def typedBefore (fw : Firmware) (multi type n : Nat) : Nat := (List.range n).countP (isType fw multi type)

/-- The child that `mlxfw_mfa2_tlv_multi_child_find` looks for. -/
def IsNth (fw : Firmware) (multi type index tlv : Nat) : Prop :=
  ∃ n, IsChild fw multi n tlv ∧ fw.tlvType tlv = type ∧ typedBefore fw multi type n = index

def Complete (fw : Firmware) (multi : Nat) : Prop :=
  fw.announced multi < 2 ^ 16 ∧
    ∀ n < fw.announced multi, ∃ tlv, passed fw n (multiChild fw multi) = some (some tlv)

structure PartSafe (fw : Firmware) (tlv : Nat) : Prop where
  multi : Fits fw tlv typeMultiPart 4 false
  children : IsMulti fw tlv → ∀ n child, IsChild fw (tlv + 4) n child → Passable fw child

def HasPsid (fw : Firmware) (dev : Nat) : Prop :=
  ∃ child, IsNth fw (dev + 4) typePsid 0 child ∧ Accepts fw child typePsid 0 true

/-- The device's component pointers before this one pass the checks. -/
def PointersBefore (fw : Firmware) (dev index : Nat) : Prop :=
  ∀ old < index, ∀ child, IsNth fw (dev + 4) typeComponentPtr old child →
    Accepts fw child typeComponentPtr 8 false

structure DeviceSafe (fw : Firmware) (dev : Nat) : Prop extends PartSafe fw dev where
  psid : IsMulti fw dev → Complete fw (dev + 4) →
    ∀ child, IsNth fw (dev + 4) typePsid 0 child → Fits fw child typePsid 0 true
  pointer : IsMulti fw dev → Complete fw (dev + 4) → HasPsid fw dev →
    ∀ index child, PointersBefore fw dev index → IsNth fw (dev + 4) typeComponentPtr index child →
      Fits fw child typeComponentPtr 8 false

/-- What `mlxfw_mfa2_file_dev_validate` asks of a device. -/
structure DeviceValid (fw : Firmware) (dev : Nat) : Prop where
  multi : IsMulti fw dev
  complete : Complete fw (dev + 4)
  psid : HasPsid fw dev
  some : typedBefore fw (dev + 4) typeComponentPtr (fw.announced (dev + 4)) ≠ 0
  pointers : ∀ index, PointersBefore fw dev index

structure ComponentSafe (fw : Firmware) (comp : Nat) : Prop extends PartSafe fw comp where
  descriptor : IsMulti fw comp → Complete fw (comp + 4) →
    ∀ child, multiChild fw (comp + 4) = some child → Fits fw child typeComponentDescriptor 16 false

structure ComponentValid (fw : Firmware) (comp : Nat) : Prop where
  multi : IsMulti fw comp
  complete : Complete fw (comp + 4)
  descriptor : ∃ child, multiChild fw (comp + 4) = some child ∧
    Accepts fw child typeComponentDescriptor 16 false

def AllUpTo (fw : Firmware) (valid : Nat → Prop) (first : Option Nat) (count : Nat) : Prop :=
  ∀ n < count, ∃ tlv, passed fw n first = some (some tlv) ∧ valid tlv

/-- The first device, and the payload of the package descriptor. -/
def Opens (fw : Firmware) (dev pd : Nat) : Prop :=
  ∃ tlv child, tlvGet fw (nlaAlign 16) = some tlv ∧ IsMulti fw tlv ∧ multiChild fw (tlv + 4) = some child ∧
    Accepts fw child typePackageDescriptor 28 false ∧ pd = child + 4 ∧
    (tlvNext fw tlv).result = some (some dev)

/-- The component block of a package descriptor is inside the image. -/
def BlockInside (fw : Firmware) (pd : Nat) : Prop :=
  validPtr fw ((fw.be32 (pd + 4) + 3) % 2 ^ 32 / 4 * 4) = true ∧
    validPtr fw ((fw.be32 (pd + 4) + 3) % 2 ^ 32 / 4 * 4 + fw.be32 (pd + 8) - 1) = true

def psidBytes (fw : Firmware) (child : Nat) : List Nat :=
  (List.range (fw.tlvLen child)).map fun i => fw.byte (child + 4 + i)

def SamePsid (fw : Firmware) (dev other : Nat) : Prop :=
  ∃ child otherChild, IsNth fw (dev + 4) typePsid 0 child ∧ IsNth fw (other + 4) typePsid 0 otherChild ∧
    psidBytes fw child = psidBytes fw otherChild

/-- A component pointer of the first device of a PSID has this index. -/
def PointsTo (fw : Firmware) (first : Option Nat) (count index : Nat) : Prop :=
  ∃ n < count, ∃ dev, passed fw n first = some (some dev) ∧
    (∀ old < n, ∀ other, passed fw old first = some (some other) → ¬ SamePsid fw other dev) ∧
    ∃ ptrIndex child, IsNth fw (dev + 4) typeComponentPtr ptrIndex child ∧ fw.be16 (child + 4 + 2) = index

/-- The TLVs that the parser comes to behind the package descriptor: devices up to the first that is not
valid, then components up to the first that is not valid; and, as `mlxfw_mfa2_file_component_tlv_get` lets an
index be equal to the number of components, the TLV behind them, where a device points to it. -/
structure BodySafe (fw : Firmware) (dev devCount compCount : Nat) : Prop where
  devices : ∀ n < devCount, AllUpTo fw (DeviceValid fw) (some dev) n →
    ∀ tlv, passed fw n (some dev) = some (some tlv) → DeviceSafe fw tlv
  components : AllUpTo fw (DeviceValid fw) (some dev) devCount →
    ∀ first, passed fw devCount (some dev) = some first →
    ∀ n < compCount, AllUpTo fw (ComponentValid fw) first n →
      ∀ tlv, passed fw n first = some (some tlv) → ComponentSafe fw tlv
  behind : AllUpTo fw (DeviceValid fw) (some dev) devCount →
    ∀ first, passed fw devCount (some dev) = some first → AllUpTo fw (ComponentValid fw) first compCount →
    PointsTo fw (some dev) devCount compCount →
    ∀ tlv, passed fw compCount first = some (some tlv) → Fits fw tlv typeMultiPart 4 false ∧
      (IsMulti fw tlv → ∀ child, multiChild fw (tlv + 4) = some child →
        Fits fw child typeComponentDescriptor 16 false)

structure ImageSafe (fw : Firmware) : Prop where
  package : ∀ tlv, tlvGet fw (nlaAlign 16) = some tlv → Fits fw tlv typeMultiPart 4 false
  descriptor : ∀ tlv, tlvGet fw (nlaAlign 16) = some tlv → IsMulti fw tlv →
    ∀ child, multiChild fw (tlv + 4) = some child → Fits fw child typePackageDescriptor 28 false
  -- the walk over the device list comes before its validation
  list : ∀ dev pd, Opens fw dev pd → ∀ n < fw.be16 (pd + 2), ∀ tlv,
    passed fw n (some dev) = some (some tlv) → Passable fw tlv
  body : ∀ dev pd, Opens fw dev pd → BlockInside fw pd → BodySafe fw dev (fw.be16 (pd + 2)) (fw.be16 pd)

abbrev Spec {α : Type} (fw : Firmware) (run : Run α) (post : α → Prop) : Prop :=
  Logged.Holds (Access.Good fw) run post

/-! ### Reads -/

variable {offset : Nat}

theorem emit_spec (access : Access) (isGood : access.Good fw) :
    Spec fw (Logged.emit access) fun _ => True := .emit isGood

theorem readByte_spec (inside : offset < fw.size) :
    Spec fw (readByte fw offset) fun value => value = fw.byte offset :=
  (emit_spec (.read offset) inside).bind fun _ _ => .pure rfl

theorem readBe16_spec (inside : offset + 2 ≤ fw.size) :
    Spec fw (readBe16 fw offset) fun value => value = fw.be16 offset := by
  refine (readByte_spec (by omega)).bind fun high first => ?_
  refine (readByte_spec (by omega)).bind fun low second => ?_
  refine .pure ?_
  rw [first, second]
  rfl

theorem readBe32_spec (inside : offset + 4 ≤ fw.size) :
    Spec fw (readBe32 fw offset) fun value => value = fw.be32 offset := by
  refine (readBe16_spec (by omega)).bind fun high first => ?_
  refine (readBe16_spec (by omega)).bind fun low second => ?_
  refine .pure ?_
  rw [first, second]
  rfl

theorem readBytes_spec (count) (inside : offset + count ≤ fw.size) : Spec fw (readBytes fw offset count)
    fun bytes => bytes = (List.range count).map fun i => fw.byte (offset + i) := by
  induction count generalizing offset with
  | zero => exact .pure rfl
  | succ count ih =>
    refine (readByte_spec (by omega)).bind fun first isFirst => ?_
    refine (ih (by omega)).bind fun rest isRest => ?_
    refine .pure ?_
    rw [isFirst, isRest, List.range_succ_eq_map, List.map_cons, List.map_map]
    refine congrArg _ (List.map_congr_left fun i _ => congrArg fw.byte ?_)
    rw [Nat.add_assoc, Nat.add_comm 1 i]

theorem none_spec {α : Type} {known : α → Prop} :
    Spec fw (pure none : Run (Option α)) fun found => ∀ value, found = some value → known value :=
  .pure fun _ never => by cases never

/-- What `mlxfw_mfa2_tlv_get` lets pass: the header and one more byte are inside. -/
def Tlv (fw : Firmware) (tlv : Nat) : Prop := 0 < tlv ∧ tlv + 4 < fw.size

theorem validPtr_iff {ptr} : validPtr fw ptr = true ↔ 0 < ptr ∧ ptr < fw.size := by
  unfold validPtr
  rw [Bool.and_eq_true_iff, decide_eq_true_iff, decide_eq_true_iff]

theorem tlvGet_tlv {ptr tlv} (got : tlvGet fw ptr = some tlv) : Tlv fw tlv := by
  unfold tlvGet at got
  split at got
  case isTrue valid =>
    cases got
    obtain ⟨first, second⟩ := Bool.and_eq_true_iff.mp valid
    exact ⟨(validPtr_iff.mp first).1, (validPtr_iff.mp second).2⟩
  case isFalse => cases got

variable {tlv : Nat}

theorem tlvPayloadGet_spec (here : Tlv fw tlv) {payloadType payloadSize varsize}
    (fits : Fits fw tlv payloadType payloadSize varsize) :
    Spec fw (tlvPayloadGet fw tlv payloadType payloadSize varsize) fun payload =>
      (payload ≠ none ↔ Accepts fw tlv payloadType payloadSize varsize) ∧
      ∀ start, payload = some start → start = tlv + 4 ∧ start + fw.tlvLen tlv ≤ fw.size := by
  obtain ⟨pos, inside⟩ := here
  have refuse (not : ¬Accepts fw tlv payloadType payloadSize varsize) :
      Spec fw (pure none : Run (Option Nat)) fun payload =>
        (payload ≠ none ↔ Accepts fw tlv payloadType payloadSize varsize) ∧
        ∀ start, payload = some start → start = tlv + 4 ∧ start + fw.tlvLen tlv ≤ fw.size :=
    .pure ⟨⟨fun never => absurd rfl never, fun accepts => absurd accepts not⟩, fun _ never => by cases never⟩
  refine (readBe16_spec (by omega)).bind fun len lenSame => ?_
  change len = fw.tlvLen tlv at lenSame
  rw [lenSame]
  have valid : validPtr fw tlv = true := validPtr_iff.mpr ⟨pos, by omega⟩
  split
  case isTrue outside =>
    refine refuse fun accepts => ?_
    rw [valid, accepts.1] at outside
    cases outside
  case isFalse top =>
    have topValid : validPtr fw (tlv + fw.tlvLen tlv - 1) = true := by
      cases inner : validPtr fw (tlv + fw.tlvLen tlv - 1) with
      | true => rfl
      | false =>
        rw [inner, valid] at top
        exact absurd rfl top
    refine (readByte_spec (by omega)).bind fun type typeSame => ?_
    change type = fw.tlvType tlv at typeSame
    rw [typeSame]
    split
    case isTrue apart => exact refuse fun accepts => apart accepts.2.1
    case isFalse same =>
      have same := Decidable.not_not.mp same
      split
      case isTrue short => exact refuse fun accepts => absurd (accepts.2.2.1 short.1) (by omega)
      case isFalse long =>
        split
        case isTrue wrong => exact refuse fun accepts => wrong.2 (accepts.2.2.2 wrong.1)
        case isFalse right =>
          have accepts : Accepts fw tlv payloadType payloadSize varsize := by
            refine ⟨topValid, same, ?_, ?_⟩
            · intro var
              by_contra short
              exact long ⟨var, by omega⟩
            · intro fixed
              by_contra wrong
              exact right ⟨fixed, wrong⟩
          refine (emit_spec (.payload tlv _) (fits accepts)).bind fun _ _ => ?_
          refine .pure ⟨⟨fun _ => accepts, fun _ => some_ne_none _⟩, ?_⟩
          intro start equal
          cases equal
          exact ⟨rfl, fits accepts⟩

theorem fixedGet_spec (here : Tlv fw tlv) {payloadType payloadSize}
    (fits : Fits fw tlv payloadType payloadSize false) :
    Spec fw (tlvPayloadGet fw tlv payloadType payloadSize false) fun payload =>
      ∀ start, payload = some start → start = tlv + 4 ∧ start + payloadSize ≤ fw.size ∧
        Accepts fw tlv payloadType payloadSize false :=
  (tlvPayloadGet_spec here fits).weaken fun payload known start equal => by
    obtain ⟨same, ends⟩ := known.2 start equal
    have accepts := known.1.mp (equal ▸ some_ne_none start)
    rw [accepts.2.2.2 rfl] at ends
    exact ⟨same, ends, accepts⟩

def TlvOrNull (fw : Firmware) (ptr : Option Nat) : Prop := ∀ tlv, ptr = some tlv → Tlv fw tlv

theorem tlvGet_spec (ptr) : TlvOrNull fw (tlvGet fw ptr) := fun _ got => tlvGet_tlv got

private theorem tlvOrNull_none : TlvOrNull fw none := fun _ never => by cases never

theorem IsMulti.passable (multi : IsMulti fw tlv) (fits : Fits fw tlv typeMultiPart 4 false) :
    Passable fw tlv := by
  have four := multi.2.2.2 rfl
  have ends := fits multi
  exact fun _ => ⟨four, by omega⟩

theorem tlvNext_spec (here : Tlv fw tlv) (passable : Passable fw tlv) :
    Spec fw (tlvNext fw tlv) (TlvOrNull fw) := by
  have bound := here.2
  refine (readBe16_spec (by omega)).bind fun len _ => ?_
  refine (readByte_spec (by omega)).bind fun type typeSame => ?_
  split
  case isTrue multiPart =>
    rw [typeSame] at multiPart
    obtain ⟨four, ends⟩ := passable multiPart
    have accepts : Accepts fw tlv typeMultiPart 4 false :=
      ⟨validPtr_iff.mpr (by omega), multiPart, nofun, fun _ => four⟩
    refine (tlvPayloadGet_spec here fun _ => by omega).bind fun multi known => ?_
    refine (emit_spec (.deref tlv multi) (known.1.mpr accepts)).bind fun _ _ => ?_
    cases multi with
    | none => exact .stop
    | some payload =>
      obtain ⟨_, ends⟩ := known.2 payload rfl
      refine (readBe16_spec (by omega)).bind fun totalLen _ => ?_
      exact .pure (tlvGet_spec _)
  case isFalse => exact .pure (tlvGet_spec _)

/-! ### Loops

The invariant of a loop is about the number of TLVs passed, which the index is cut from. -/

theorem passed_succ {n first here next} (reached : passed fw n first = some (some here))
    (goes : (tlvNext fw here).result = some next) : passed fw (n + 1) first = some next := by
  induction n generalizing first with
  | zero =>
    cases reached
    rw [passed, goes]
    rfl
  | succ n ih =>
    cases first with
    | none => cases reached
    | some start =>
      rw [passed] at reached ⊢
      obtain ⟨second, got, rest⟩ := Option.bind_eq_some_iff.mp reached
      rw [got]
      exact ih rest

variable {body : Option Nat → σ → Run (σ ⊕ ρ)} {first : Option Nat}

theorem tlvForeach_spec {range count} (pos : 0 < range) (small : count ≤ range) (inv : Nat → σ → Prop)
    (back : ρ → Prop) (bodySpec : ∀ n tlv state, passed fw n first = some tlv → TlvOrNull fw tlv →
      (n < count ∨ count = range) → inv n state → Spec fw (body tlv state)
        (Sum.elim (fun state => ∃ here, tlv = some here ∧ Passable fw here ∧ inv (n + 1) state) back))
    (fuel n) {tlv} (reached : passed fw n first = some tlv) (known : TlvOrNull fw tlv)
    (turns : n ≤ count ∨ count = range) {state : σ} (holds : inv n state) :
    Spec fw (tlvForeach fw body range count fuel (n % range) tlv state)
      (Sum.elim (fun left => count < range ∧ passed fw count first = some left.1 ∧ TlvOrNull fw left.1 ∧
        inv count left.2) back) := by
  have below := Nat.mod_lt n pos
  have exact (atMost : n ≤ count) (apart : count ≠ range) : n % range = n := Nat.mod_eq_of_lt (by omega)
  induction fuel generalizing n tlv state with
  | zero => exact .stop
  | succ fuel ih =>
    unfold tlvForeach
    split
    case isTrue inside =>
      have turn : n < count ∨ count = range := by
        by_cases full : count = range
        · exact .inr full
        · have atMost := turns.resolve_right full
          rw [exact atMost full] at inside
          exact .inl inside
      refine (bodySpec n tlv state reached known turn holds).bind fun outcome ends => ?_
      cases outcome with
      | inr res => exact .pure ends
      | inl state =>
        obtain ⟨here, rfl, passable, kept⟩ := ends
        refine ((tlvNext_spec (known here rfl) passable).returned).bind fun next ⟨got, later⟩ => ?_
        rw [Nat.mod_add_mod]
        have turns : n + 1 ≤ count ∨ count = range := turn.imp_left id
        exact ih (n + 1) (passed_succ reached got) later turns kept (Nat.mod_lt _ pos)
          fun atMost apart => Nat.mod_eq_of_lt (by omega)
    case isFalse outside =>
      by_cases full : count = range
      · omega
      · have atMost := turns.resolve_right full
        rw [exact atMost full] at outside
        have last : n = count := by omega
        rw [last] at reached holds
        exact .pure ⟨by omega, reached, known, holds⟩

theorem announced_le (fw : Firmware) (multi) : fw.announced multi ≤ 2 ^ 16 := be16_lt fw multi

variable {multi : Nat}

theorem multiForeach_spec (inside : multi + 4 ≤ fw.size) (inv : Nat → σ → Prop) (back : ρ → Prop)
    (bodySpec : ∀ n tlv state, passed fw n (multiChild fw multi) = some tlv → TlvOrNull fw tlv →
      (n < fw.announced multi ∨ fw.announced multi = 2 ^ 16) → inv n state → Spec fw (body tlv state)
        (Sum.elim (fun state => ∃ here, tlv = some here ∧ Passable fw here ∧ inv (n + 1) state) back))
    (fuel) {state : σ} (start : inv 0 state) : Spec fw (multiForeach fw body fuel multi state)
      (Sum.elim (fun left => fw.announced multi < 2 ^ 16 ∧ inv (fw.announced multi) left.2) back) := by
  refine (readBe16_spec (by omega)).bind fun numExtensions isCount => ?_
  rw [isCount]
  refine (tlvForeach_spec (by decide) (announced_le fw multi) inv back bodySpec fuel 0 rfl (tlvGet_spec _)
    (.inl (Nat.zero_le _)) start).weaken fun outcome ends => ?_
  cases outcome with
  | inl left => exact ⟨ends.1, ends.2.2.2⟩
  | inr res => exact ends

/-- A walk ends where the chain does, or at the TLV it is to reach. -/
theorem tlvAdvance_spec {count} (small : count < 2 ^ 16) (known : TlvOrNull fw first)
    (list : ∀ n < count, ∀ tlv, passed fw n first = some (some tlv) → Passable fw tlv) (fuel) :
    Spec fw (tlvAdvance fw fuel first count) fun reached => TlvOrNull fw reached ∧
      (passed fw count first = some reached ∨
        reached = none ∧ ∃ n < count, passed fw n first = some none) := by
  refine Logged.Holds.bind (tlvForeach_spec (by decide) (le_of_lt small)
    (fun _ _ => True) (fun res => res = none ∧ ∃ n < count, passed fw n first = some none)
    ?_ fuel 0 rfl known (.inl (Nat.zero_le _)) trivial) fun outcome ends => ?_
  · intro n tlv _ reached _ turn _
    have turn := turn.resolve_right (by omega)
    cases tlv with
    | none => exact .pure ⟨rfl, n, turn, reached⟩
    | some here => exact .pure ⟨here, rfl, list n turn here reached, trivial⟩
  · cases outcome with
    | inl left => exact .pure ⟨ends.2.2.1, .inl ends.2.1⟩
    | inr res => exact .pure ⟨ends.1 ▸ tlvOrNull_none, .inr ends⟩

/-! ### Children -/

theorem typedBefore_succ (type n) : typedBefore fw multi type (n + 1) =
    typedBefore fw multi type n + if isType fw multi type n then 1 else 0 := by
  unfold typedBefore
  rw [List.range_succ, List.countP_append, List.countP_singleton]

theorem typedBefore_mono (type) : Monotone (typedBefore fw multi type) :=
  monotone_nat_of_le_succ fun n => by rw [typedBefore_succ]; exact Nat.le_add_right _ _

theorem typedBefore_le (type n) : typedBefore fw multi type n ≤ n :=
  List.countP_le_length.trans_eq List.length_range

theorem typedBefore_step (type) {n child} (here : passed fw n (multiChild fw multi) = some (some child)) :
    typedBefore fw multi type (n + 1) =
      typedBefore fw multi type n + if fw.tlvType child = type then 1 else 0 := by
  rw [typedBefore_succ, isType, here]
  simp only [decide_eq_true_eq]

theorem IsNth.lt {type index child n} (isChild : IsChild fw multi n child) (isType : fw.tlvType child = type)
    (nth : typedBefore fw multi type n = index) {later} (more : n < later) :
    index < typedBefore fw multi type later := by
  have step := typedBefore_step type isChild.1
  rw [if_pos isType] at step
  have mono : typedBefore fw multi type (n + 1) ≤ typedBefore fw multi type later :=
    typedBefore_mono type more
  omega

theorem IsNth.unique {type index child other} (left : IsNth fw multi type index child)
    (right : IsNth fw multi type index other) : child = other := by
  obtain ⟨n, isChild, isType, nth⟩ := left
  obtain ⟨m, otherChild, otherType, otherNth⟩ := right
  have notBefore : ¬ n < m := fun old => (IsNth.lt isChild isType nth old).ne otherNth.symm
  have notBehind : ¬ m < n := fun old => (IsNth.lt otherChild otherType otherNth old).ne nth.symm
  have same : n = m := by omega
  have here := isChild.1
  rw [same, otherChild.1] at here
  cases here
  rfl

variable (fuel : Nat) (inside : multi + 4 ≤ fw.size)
  (children : ∀ n child, IsChild fw multi n child → Passable fw child)

include inside children

theorem multiChildFind_spec (type) {index} (small : index < 2 ^ 16) :
    Spec fw (multiChildFind fw fuel multi type index) fun found =>
      ∀ child, found = some child → Tlv fw child ∧ IsNth fw multi type index child := by
  refine Logged.Holds.bind (multiForeach_spec inside
    (fun n skip => skip = typedBefore fw multi type n ∧ skip ≤ index)
    (fun found => ∀ child, found = some child → Tlv fw child ∧ IsNth fw multi type index child)
    ?_ fuel ⟨rfl, Nat.zero_le _⟩) fun outcome holds => ?_
  · intro n tlv skip reached known turn ⟨isCount, atMost⟩
    cases tlv with
    | none => exact .pure fun _ never => by cases never
    | some here =>
      have bound := (known here rfl).2
      have passable := children n here ⟨reached, turn⟩
      have step := typedBefore_step type reached
      refine (readByte_spec (by omega)).bind fun found isFound => ?_
      change found = fw.tlvType here at isFound
      rw [isFound]
      split
      case isTrue same =>
        rw [if_pos same] at step
        split
        case isTrue last =>
          refine .pure fun child equal => ?_
          cases equal
          exact ⟨known here rfl, n, ⟨reached, turn⟩, same, isCount ▸ last⟩
        case isFalse apart =>
          rw [Nat.mod_eq_of_lt (by omega)]
          exact .pure ⟨here, rfl, passable, by omega, by omega⟩
      case isFalse apart =>
        rw [if_neg apart] at step
        exact .pure ⟨here, rfl, passable, by omega, atMost⟩
  · cases outcome with
    | inl left => exact .pure fun _ never => by cases never
    | inr res => exact .pure holds

theorem multiChildCount_spec (type) : Spec fw (multiChildCount fw fuel multi type) fun found =>
      ∀ count, found = some count → count = typedBefore fw multi type (fw.announced multi) := by
  refine Logged.Holds.bind (multiForeach_spec inside
    (fun n count => count = typedBefore fw multi type n % 2 ^ 16) (fun _ => True)
    ?_ fuel rfl) fun outcome holds => ?_
  · intro n tlv count reached known turn isCount
    cases tlv with
    | none => exact .pure trivial
    | some here =>
      have bound := (known here rfl).2
      have passable := children n here ⟨reached, turn⟩
      have step := typedBefore_step type reached
      refine (readByte_spec (by omega)).bind fun found isFound => ?_
      change found = fw.tlvType here at isFound
      rw [isFound]
      split
      case isTrue same =>
        rw [if_pos same] at step
        refine .pure ⟨here, rfl, passable, ?_⟩
        rw [step, isCount, Nat.mod_add_mod]
      case isFalse apart =>
        rw [if_neg apart] at step
        exact .pure ⟨here, rfl, passable, isCount.trans (congrArg (· % 2 ^ 16) step.symm)⟩
  · cases outcome with
    | inl left =>
      refine .pure fun count equal => ?_
      cases equal
      rw [holds.2, Nat.mod_eq_of_lt (lt_of_le_of_lt (typedBefore_le type _) holds.1)]
    | inr res => exact .pure fun _ never => by cases never

theorem multiValidate_spec : Spec fw (multiValidate fw fuel multi) fun valid =>
      valid = true → Complete fw multi := by
  refine Logged.Holds.bind (multiForeach_spec inside
    (fun n _ => ∀ m < n, ∃ tlv, passed fw m (multiChild fw multi) = some (some tlv)) (fun _ => True)
    ?_ fuel nofun) fun outcome holds => ?_
  · intro n tlv _ reached _ turn old
    cases tlv with
    | none => exact .pure trivial
    | some here =>
      refine .pure ⟨here, rfl, children n here ⟨reached, turn⟩, fun m more => ?_⟩
      rcases Nat.lt_succ_iff_lt_or_eq.mp more with before | rfl
      · exact old m before
      · exact ⟨here, reached⟩
  · cases outcome with
    | inl left => exact .pure fun _ => holds
    | inr res => exact .pure nofun

/-! ### The checks of the file -/

omit inside children

variable (debug : Bool) {dev : Nat}

theorem PointersBefore.succ {index child} (old : PointersBefore fw dev index)
    (nth : IsNth fw (dev + 4) typeComponentPtr index child)
    (accepts : Accepts fw child typeComponentPtr 8 false) : PointersBefore fw dev (index + 1) := by
  intro other more item isItem
  rcases Nat.lt_succ_iff_lt_or_eq.mp more with before | rfl
  · exact old other before item isItem
  · exact nth.unique isItem ▸ accepts

private theorem devComponentPtrs_spec (inside : dev + 4 + 4 ≤ fw.size)
    (children : ∀ n child, IsChild fw (dev + 4) n child → Passable fw child)
    (pointer : ∀ index child, PointersBefore fw dev index →
      IsNth fw (dev + 4) typeComponentPtr index child → Fits fw child typeComponentPtr 8 false)
    (rest) {cptrIdx} (small : cptrIdx + rest < 2 ^ 16) (old : PointersBefore fw dev cptrIdx) :
    Spec fw (devComponentPtrs fw fuel debug (dev + 4) rest cptrIdx) fun valid =>
      valid = true → PointersBefore fw dev (cptrIdx + rest) := by
  induction rest generalizing cptrIdx with
  | zero => exact .pure fun _ => old
  | succ rest ih =>
    refine (multiChildFind_spec fuel inside children typeComponentPtr (by omega)).bind fun found known => ?_
    cases found with
    | none => exact .pure nofun
    | some child =>
      obtain ⟨here, nth⟩ := known child rfl
      refine (fixedGet_spec here (pointer cptrIdx child old nth)).bind fun payload ends => ?_
      cases payload with
      | none => exact .pure nofun
      | some cptr =>
        obtain ⟨rfl, bound, accepts⟩ := ends cptr rfl
        have printed : child + 4 + 2 + (if debug then 2 else 0) ≤ fw.size := by
          split <;> omega
        refine (readBytes_spec _ printed).bind fun _ _ => ?_
        rw [Nat.add_comm rest 1, ← Nat.add_assoc]
        exact ih (by omega) (old.succ nth accepts)

theorem psidGet_spec {child} (here : Tlv fw child) (fits : Fits fw child typePsid 0 true) :
    Spec fw (psidGet fw child) fun payload => ∀ start, payload = some start →
      start = child + 4 ∧ start + fw.tlvLen child ≤ fw.size ∧ Accepts fw child typePsid 0 true :=
  (tlvPayloadGet_spec here fits).weaken fun payload known start equal => by
    obtain ⟨same, ends⟩ := known.2 start equal
    exact ⟨same, ends, known.1.mp (equal ▸ some_ne_none start)⟩

private theorem fileDevValidate_spec (here : Tlv fw dev) (safe : DeviceSafe fw dev) :
    Spec fw (fileDevValidate fw fuel debug dev) fun valid =>
      valid = true → DeviceValid fw dev ∧ Passable fw dev := by
  refine (fixedGet_spec here safe.multi).bind fun payload ends => ?_
  cases payload with
  | none => exact .pure nofun
  | some multi =>
    obtain ⟨rfl, inside, isMulti⟩ := ends multi rfl
    have children := safe.children isMulti
    refine (multiValidate_spec fuel inside children).bind fun valid complete => ?_
    split
    case isTrue => exact .pure nofun
    case isFalse isValid =>
      have complete := complete (Bool.not_eq_false _ ▸ isValid)
      refine (multiChildFind_spec fuel inside children typePsid (by decide)).bind fun found known => ?_
      cases found with
      | none => exact .pure nofun
      | some child =>
        obtain ⟨childHere, nth⟩ := known child rfl
        have bound := childHere.2
        refine (psidGet_spec childHere (safe.psid isMulti complete child nth)).bind fun payload psidEnds => ?_
        cases payload with
        | none => exact .pure nofun
        | some psid =>
          obtain ⟨-, whole, accepts⟩ := psidEnds psid rfl
          have hasPsid : HasPsid fw dev := ⟨child, nth, accepts⟩
          refine (readBe16_spec (by omega)).bind fun len lenSame => ?_
          change len = fw.tlvLen child at lenSame
          have dumped : psid + (if debug then len else 0) ≤ fw.size := by
            split <;> omega
          refine (readBytes_spec _ dumped).bind fun _ _ => ?_
          refine (multiChildCount_spec fuel inside children typeComponentPtr).bind fun count isCount => ?_
          cases count with
          | none => exact .pure nofun
          | some cptrCount =>
            have isCount := isCount cptrCount rfl
            dsimp only
            split
            case isTrue => exact .pure nofun
            case isFalse some =>
              have few : cptrCount ≤ fw.announced (dev + 4) := by
                rw [isCount]
                exact typedBefore_le _ _
              have below := complete.1
              refine (devComponentPtrs_spec fuel debug inside children
                (safe.pointer isMulti complete hasPsid) cptrCount (by omega) fun _ never => by omega).weaken
                fun valid all isValid => ?_
              refine ⟨⟨isMulti, complete, hasPsid, isCount ▸ some, ?_⟩, IsMulti.passable isMulti safe.multi⟩
              intro index old _ item isItem
              refine all isValid old ?_ item isItem
              obtain ⟨n, isChild, isType, nth⟩ := isItem
              rw [Nat.zero_add, isCount]
              exact IsNth.lt isChild isType nth (isChild.2.resolve_right below.ne)

private theorem fileCompValidate_spec {comp} (here : Tlv fw comp) (safe : ComponentSafe fw comp) :
    Spec fw (fileCompValidate fw fuel debug comp) fun valid =>
      valid = true → ComponentValid fw comp ∧ Passable fw comp := by
  refine (fixedGet_spec here safe.multi).bind fun payload ends => ?_
  cases payload with
  | none => exact .pure nofun
  | some multi =>
    obtain ⟨rfl, inside, isMulti⟩ := ends multi rfl
    refine (multiValidate_spec fuel inside (safe.children isMulti)).bind fun valid complete => ?_
    split
    case isTrue => exact .pure nofun
    case isFalse isValid =>
      have complete := complete (Bool.not_eq_false _ ▸ isValid)
      cases child : multiChild fw (comp + 4) with
      | none => exact .pure nofun
      | some desc =>
        refine (fixedGet_spec (tlvGet_tlv child) (safe.descriptor isMulti complete desc child)).bind
          fun payload descEnds => ?_
        cases payload with
        | none => exact .pure nofun
        | some cdesc =>
          obtain ⟨rfl, bound, accepts⟩ := descEnds cdesc rfl
          have printed : desc + 4 + 2 + (if debug then 14 else 0) ≤ fw.size := by
            split <;> omega
          refine (readBytes_spec _ printed).bind fun _ _ => .pure fun _ => ?_
          exact ⟨⟨isMulti, complete, desc, child, accepts⟩, IsMulti.passable isMulti safe.multi⟩

theorem AllUpTo.succ {valid n here} (old : AllUpTo fw valid first n)
    (reached : passed fw n first = some (some here)) (isValid : valid here) :
    AllUpTo fw valid first (n + 1) := by
  intro m more
  rcases Nat.lt_succ_iff_lt_or_eq.mp more with before | rfl
  · exact old m before
  · exact ⟨here, reached, isValid⟩

private theorem validateAll_spec {check count} {safe valid : Nat → Prop} (known : TlvOrNull fw first)
    (checkSpec : ∀ tlv, Tlv fw tlv → safe tlv →
      Spec fw (check tlv) fun ok => ok = true → valid tlv ∧ Passable fw tlv) (small : count < 2 ^ 16)
    (each : ∀ n < count, AllUpTo fw valid first n → ∀ tlv, passed fw n first = some (some tlv) → safe tlv) :
    Spec fw (validateAll fw fuel check first count) fun ok => ok = true → AllUpTo fw valid first count := by
  refine Logged.Holds.bind (tlvForeach_spec (by decide) (le_of_lt small)
    (fun n _ => AllUpTo fw valid first n) (fun _ => True)
    ?_ fuel 0 rfl known (.inl (Nat.zero_le _)) nofun) fun outcome ends => ?_
  · intro n tlv _ reached known turn old
    have turn := turn.resolve_right (by omega)
    cases tlv with
    | none => exact .pure trivial
    | some here =>
      refine (checkSpec here (known here rfl) (each n turn old here reached)).bind fun ok accepted => ?_
      split
      case isTrue isOk =>
        obtain ⟨isValid, passable⟩ := accepted isOk
        exact .pure ⟨here, rfl, passable, old.succ reached isValid⟩
      case isFalse => exact .pure trivial
  · cases outcome with
    | inl left => exact .pure fun _ => ends.2.2.2
    | inr res => exact .pure nofun

structure Opened (fw : Firmware) (file : File) (dev : Nat) : Prop where
  here : Tlv fw dev
  firstDev : file.firstDev = some dev
  devCount : file.devCount < 2 ^ 16
  compCount : file.componentCount < 2 ^ 16
  safe : BodySafe fw dev file.devCount file.componentCount
  reached : passed fw file.devCount (some dev) = some file.firstComponent
  known : TlvOrNull fw file.firstComponent
  devices : AllUpTo fw (DeviceValid fw) (some dev) file.devCount
  components : AllUpTo fw (ComponentValid fw) file.firstComponent file.componentCount

variable {file : File}

private theorem fileValidate_spec (here : Tlv fw dev) (firstDev : file.firstDev = some dev)
    (devCount : file.devCount < 2 ^ 16) (compCount : file.componentCount < 2 ^ 16)
    (safe : BodySafe fw dev file.devCount file.componentCount) (known : TlvOrNull fw file.firstComponent)
    (walked : passed fw file.devCount (some dev) = some file.firstComponent ∨
      file.firstComponent = none ∧ ∃ n < file.devCount, passed fw n (some dev) = some none) :
    Spec fw (fileValidate fw fuel debug file) fun valid => valid = true → Opened fw file dev := by
  have devKnown : TlvOrNull fw file.firstDev := by
    intro tlv isFirst
    rw [firstDev] at isFirst
    cases isFirst
    exact here
  have devices := safe.devices
  rw [← firstDev] at devices
  refine (validateAll_spec fuel devKnown (fun _ => fileDevValidate_spec fuel debug) devCount devices).bind
    fun ok all => ?_
  split
  case isTrue => exact .pure nofun
  case isFalse isValid =>
    have all := all (Bool.not_eq_false _ ▸ isValid)
    rw [firstDev] at all
    -- With all devices there, the walk over them did not end at NULL.
    have reached : passed fw file.devCount (some dev) = some file.firstComponent := by
      refine walked.resolve_right fun ⟨_, n, more, gone⟩ => ?_
      obtain ⟨tlv, there, -⟩ := all n more
      rw [there] at gone
      cases gone
    exact (validateAll_spec fuel known (fun _ => fileCompValidate_spec fuel debug) compCount
      (safe.components all _ reached)).weaken fun valid components isValid =>
        ⟨here, firstDev, devCount, compCount, safe, reached, known, all, components isValid⟩

private theorem fileInit_spec (safe : ImageSafe fw) : Spec fw (fileInit fw fuel debug) fun opened =>
      ∀ file, opened = some file → ∃ dev, Opened fw file dev := by
  unfold fileInit
  cases package : tlvGet fw (nlaAlign 16) with
  | none => exact none_spec
  | some firstTlv =>
    have firstHere := tlvGet_tlv package
    have fits := safe.package firstTlv package
    refine (fixedGet_spec firstHere fits).bind fun payload ends => ?_
    cases payload with
    | none => exact none_spec
    | some multi =>
      obtain ⟨rfl, -, isMulti⟩ := ends multi rfl
      dsimp only
      cases childGot : multiChild fw (firstTlv + 4) with
      | none => exact none_spec
      | some child =>
        refine (fixedGet_spec (tlvGet_tlv childGot) (safe.descriptor _ package isMulti child childGot)).bind
          fun payload ends => ?_
        cases payload with
        | none => exact none_spec
        | some pd =>
          obtain ⟨isPd, bound, accepts⟩ := ends pd rfl
          refine ((tlvNext_spec firstHere (IsMulti.passable isMulti fits)).returned).bind
            fun next ⟨got, nextKnown⟩ => ?_
          cases next with
          | none => exact none_spec
          | some firstDev =>
            have opens : Opens fw firstDev pd :=
              ⟨firstTlv, child, package, isMulti, childGot, accepts, isPd, got⟩
            refine (readBe16_spec (by omega)).bind fun devCount isDevCount => ?_
            rw [isDevCount]
            refine (tlvAdvance_spec (be16_lt fw _) nextKnown (safe.list _ _ opens) fuel).bind
              fun firstComponent ⟨componentKnown, walked⟩ => ?_
            refine (readBe16_spec (by omega)).bind fun componentCount isCount => ?_
            rw [isCount]
            refine (readBe32_spec (by omega)).bind fun cbOffset isOffset => ?_
            rw [isOffset]
            split
            case isTrue => exact none_spec
            case isFalse start =>
              refine (readBe32_spec (by omega)).bind fun cbArchiveSize isSize => ?_
              rw [isSize]
              split
              case isTrue => exact none_spec
              case isFalse stop =>
                have block : BlockInside fw pd := ⟨by simpa using start, by simpa using stop⟩
                refine (fileValidate_spec fuel debug (nextKnown firstDev rfl) rfl (be16_lt fw _)
                  (be16_lt fw _) (safe.body _ _ opens block) componentKnown walked).bind fun valid all => ?_
                split
                case isTrue isValid =>
                  refine .pure ?_
                  intro file equal
                  cases equal
                  exact ⟨firstDev, all isValid⟩
                case isFalse => exact none_spec

/-! ### Components -/

variable (opened : Opened fw file dev) (psid : List Nat)

include opened

theorem Opened.device {n} (more : n < file.devCount) {tlv} (there : passed fw n (some dev) = some (some tlv)) :
    DeviceSafe fw tlv ∧ DeviceValid fw tlv := by
  refine ⟨opened.safe.devices n more (fun m before => opened.devices m (before.trans more)) tlv there, ?_⟩
  obtain ⟨same, reached, valid⟩ := opened.devices n more
  rw [there] at reached
  cases reached
  exact valid

omit opened in
def Matches (fw : Firmware) (psid : List Nat) (dev : Nat) : Prop :=
  ∃ child, IsNth fw (dev + 4) typePsid 0 child ∧ fw.tlvLen child = psid.length % 2 ^ 16 ∧
    psidBytes fw child = psid.take (psid.length % 2 ^ 16)

omit opened in
theorem SamePsid.matches {other device} (same : SamePsid fw other device) (found : Matches fw psid device) :
    Matches fw psid other := by
  obtain ⟨child, deviceChild, nth, deviceNth, bytes⟩ := same
  obtain ⟨found, foundNth, len, given⟩ := found
  rw [foundNth.unique deviceNth, ← bytes] at given
  refine ⟨child, nth, ?_, given⟩
  have sizes := congrArg List.length bytes
  rw [psidBytes, psidBytes, List.length_map, List.length_map, List.length_range, List.length_range] at sizes
  rw [sizes, ← foundNth.unique deviceNth, len]

/-- `mlxfw_mfa2_tlv_dev_get` finds the first device of the PSID. -/
theorem devGet_spec : Spec fw (devGet fw fuel file psid) fun found => ∀ multi, found = some multi →
      ∃ n < file.devCount, ∃ tlv, passed fw n (some dev) = some (some tlv) ∧ multi = tlv + 4 ∧
        ∀ old < n, ∀ other, passed fw old (some dev) = some (some other) → ¬ SamePsid fw other tlv := by
  have small := opened.devCount
  unfold devGet
  rw [opened.firstDev]
  refine Logged.Holds.bind (tlvForeach_spec (by decide) (by omega)
    (fun n _ => ∀ old < n, ∀ other, passed fw old (some dev) = some (some other) → ¬ Matches fw psid other)
    (fun found => ∀ multi, found = some multi → ∃ n < file.devCount, ∃ tlv,
      passed fw n (some dev) = some (some tlv) ∧ multi = tlv + 4 ∧
        ∀ old < n, ∀ other, passed fw old (some dev) = some (some other) → ¬ SamePsid fw other tlv)
    ?_ fuel 0 rfl (fun _ isFirst => by cases isFirst; exact opened.here) (.inl (Nat.zero_le _)) nofun)
    fun outcome holds => ?_
  · intro n tlv _ reached known turn old
    have turn := turn.resolve_right (by omega)
    cases tlv with
    | none => exact .pure fun _ never => by cases never
    | some devTlv =>
      obtain ⟨safe, valid⟩ := opened.device turn reached
      have passable := IsMulti.passable valid.multi safe.multi
      have further (apart : ¬ Matches fw psid devTlv) : ∀ old < n + 1, ∀ other,
          passed fw old (some dev) = some (some other) → ¬ Matches fw psid other := by
        intro m more other there
        rcases Nat.lt_succ_iff_lt_or_eq.mp more with before | rfl
        · exact old m before other there
        · rw [reached] at there
          cases there
          exact apart
      refine (fixedGet_spec (known devTlv rfl) safe.multi).bind fun payload ends => ?_
      cases payload with
      | none => exact .pure fun _ never => by cases never
      | some multi =>
        obtain ⟨rfl, inside, isMulti⟩ := ends multi rfl
        refine (multiChildFind_spec fuel inside (safe.children isMulti) typePsid (by decide)).bind
          fun child childKnown => ?_
        cases child with
        | none => exact .pure fun _ never => by cases never
        | some found =>
          obtain ⟨here, nth⟩ := childKnown found rfl
          have bound := here.2
          refine (readBe16_spec (by omega)).bind fun len lenSame => ?_
          change len = fw.tlvLen found at lenSame
          split
          case isTrue apart =>
            refine .pure ⟨devTlv, rfl, passable, further fun ⟨child, childNth, size, _⟩ => apart ?_⟩
            rw [lenSame, nth.unique childNth, size]
          case isFalse same =>
            have sizeSame := Decidable.not_not.mp same
            refine (psidGet_spec here (safe.psid isMulti valid.complete found nth)).bind
              fun payload psidEnds => ?_
            cases payload with
            | none => exact .pure fun _ never => by cases never
            | some tlvPsid =>
              obtain ⟨rfl, whole, -⟩ := psidEnds tlvPsid rfl
              refine (readBytes_spec _ (by omega)).bind fun bytes isBytes => ?_
              have read : bytes = psidBytes fw found := by rw [isBytes, ← sizeSame, lenSame]; rfl
              split
              case isTrue given =>
                refine .pure ?_
                intro res equal
                cases equal
                refine ⟨n, turn, devTlv, reached, rfl, fun m more other there same => ?_⟩
                exact old m more other there (same.matches psid ⟨found, nth, by omega, read ▸ given⟩)
              case isFalse apart =>
                refine .pure ⟨devTlv, rfl, passable, further fun ⟨child, childNth, _, given⟩ => apart ?_⟩
                rw [read, nth.unique childNth, given]
  · cases outcome with
    | inl left => exact none_spec
    | inr res => exact .pure holds

theorem Opened.found {multi} (found : ∃ n < file.devCount, ∃ tlv, passed fw n (some dev) = some (some tlv) ∧
      multi = tlv + 4 ∧ ∀ old < n, ∀ other, passed fw old (some dev) = some (some other) →
        ¬ SamePsid fw other tlv) :
    multi + 4 ≤ fw.size ∧ ∀ n child, IsChild fw multi n child → Passable fw child := by
  obtain ⟨n, more, tlv, there, rfl, -⟩ := found
  obtain ⟨safe, valid⟩ := opened.device more there
  have ends := safe.multi valid.multi
  rw [valid.multi.2.2.2 rfl] at ends
  exact ⟨ends, safe.children valid.multi⟩

private theorem fileComponentCount_spec : Spec fw (fileComponentCount fw fuel file psid) fun _ => True := by
  refine (devGet_spec fuel opened psid).bind fun found ends => ?_
  cases found with
  | none => exact .pure trivial
  | some multi =>
    obtain ⟨inside, children⟩ := opened.found (ends multi rfl)
    exact (multiChildCount_spec fuel inside children typeComponentPtr).weaken fun _ _ => trivial

private theorem fileComponentTlvGet_spec {compIndex} (behind : compIndex = file.componentCount →
      PointsTo fw (some dev) file.devCount file.componentCount) :
    Spec fw (fileComponentTlvGet fw fuel file compIndex) fun found =>
      ∀ comp, found = some comp → comp + 16 ≤ fw.size := by
  have component {n} (more : n < file.componentCount) {tlv}
      (there : passed fw n file.firstComponent = some (some tlv)) :
      ComponentSafe fw tlv ∧ ComponentValid fw tlv := by
    refine ⟨opened.safe.components opened.devices _ opened.reached n more
      (fun m before => opened.components m (before.trans more)) tlv there, ?_⟩
    obtain ⟨same, reached, valid⟩ := opened.components n more
    rw [there] at reached
    cases reached
    exact valid
  have small := opened.compCount
  unfold fileComponentTlvGet
  split
  case isTrue => exact none_spec
  case isFalse atMost =>
    have walk : ∀ n < compIndex, ∀ tlv, passed fw n file.firstComponent = some (some tlv) → Passable fw tlv := by
      intro n more tlv there
      obtain ⟨safe, valid⟩ := component (by omega) there
      exact IsMulti.passable valid.multi safe.multi
    refine (tlvAdvance_spec (by omega) opened.known walk fuel).bind fun reached ⟨reachedKnown, ends⟩ => ?_
    cases reached with
    | none => exact none_spec
    | some compTlv =>
      have there : passed fw compIndex file.firstComponent = some (some compTlv) :=
        ends.resolve_right fun never => by cases never.1
      have fits : Fits fw compTlv typeMultiPart 4 false ∧
          (IsMulti fw compTlv → ∀ child, multiChild fw (compTlv + 4) = some child →
            Fits fw child typeComponentDescriptor 16 false) := by
        by_cases last : compIndex = file.componentCount
        · rw [last] at there
          exact opened.safe.behind opened.devices _ opened.reached opened.components (behind last) _ there
        · obtain ⟨safe, valid⟩ := component (by omega) there
          exact ⟨safe.multi, fun isMulti => safe.descriptor isMulti valid.complete⟩
      refine (fixedGet_spec (reachedKnown compTlv rfl) fits.1).bind fun payload ends => ?_
      cases payload with
      | none => exact none_spec
      | some multi =>
        obtain ⟨rfl, -, isMulti⟩ := ends multi rfl
        dsimp only
        cases child : multiChild fw (compTlv + 4) with
        | none => exact none_spec
        | some tlv =>
          refine (fixedGet_spec (tlvGet_tlv child) (fits.2 isMulti tlv child)).weaken ?_
          exact fun payload ends comp same => (ends comp same).2.1

private theorem fileComponentFind_spec (componentIndex) :
    Spec fw (fileComponentFind fw fuel file psid componentIndex) fun found =>
      ∀ comp, found = some comp → comp + 16 ≤ fw.size := by
  refine (devGet_spec fuel opened psid).bind fun found ends => ?_
  cases found with
  | none => exact none_spec
  | some multi =>
    obtain ⟨inside, children⟩ := opened.found (ends multi rfl)
    obtain ⟨n, more, tlv, there, rfl, firstOfPsid⟩ := ends multi rfl
    obtain ⟨safe, valid⟩ := opened.device more there
    refine (multiChildFind_spec fuel inside children typeComponentPtr (Nat.mod_lt _ (by decide))).bind
      fun child childKnown => ?_
    cases child with
    | none => exact none_spec
    | some cptrTlv =>
      obtain ⟨here, nth⟩ := childKnown cptrTlv rfl
      have fits := safe.pointer valid.multi valid.complete valid.psid _ cptrTlv (valid.pointers _) nth
      refine (fixedGet_spec here fits).bind fun payload cptrEnds => ?_
      cases payload with
      | none => exact none_spec
      | some cptr =>
        obtain ⟨rfl, bound, -⟩ := cptrEnds cptr rfl
        refine (readBe16_spec (by omega)).bind fun compIdx isIndex => ?_
        refine fileComponentTlvGet_spec fuel opened fun last => ?_
        exact ⟨n, more, tlv, there, firstOfPsid, _, cptrTlv, nth, isIndex ▸ last⟩

private theorem fileComponentGet_spec (componentIndex) :
    Spec fw (fileComponentGet fw fuel file psid componentIndex) fun _ => True := by
  refine (fileComponentFind_spec fuel opened psid componentIndex).bind fun found ends => ?_
  cases found with
  | none => exact .pure trivial
  | some comp =>
    have bound := ends comp rfl
    refine (readBe32_spec (by omega)).bind fun offsetHigh _ => ?_
    refine (readBe32_spec (by omega)).bind fun offsetLow _ => ?_
    refine (readBe32_spec (by omega)).bind fun compSize _ => ?_
    refine (readBe16_spec (by omega)).bind fun identifier _ => ?_
    exact .pure trivial

private theorem fileCalls_spec (calls) : Spec fw (fileCalls fw fuel file calls) fun _ => True := by
  induction calls with
  | nil => exact .pure trivial
  | cons call calls ih =>
    cases call with
    | componentCount psid =>
      exact (fileComponentCount_spec fuel opened psid).bind fun _ _ => ih
    | componentGet psid index =>
      exact (fileComponentGet_spec fuel opened psid index).bind fun _ _ => ih

omit opened

omit fuel in
/-- An execution stays inside an image whose TLVs are right where the parser comes to them. -/
theorem mfa2_inside_of_safe (fw : Firmware) (safe : ImageSafe fw) (fuel : Nat) (debug : Bool)
    (calls : List Call) : ∀ access ∈ (mfa2Session fw fuel debug calls).log, access.Good fw := by
  have session : Spec fw (mfa2Session fw fuel debug calls) fun _ => True := by
    refine (fileInit_spec fuel debug safe).bind fun opened known => ?_
    cases opened with
    | none => exact .pure trivial
    | some file =>
      obtain ⟨dev, opened⟩ := known file rfl
      exact fileCalls_spec fuel opened calls
  exact session.1

def shortMultiImage : List UInt8 :=
  fingerprint ++ [0, 1, 0, 4, 0, 0, 0, 32] ++ [0, 2, 0, 28] ++
    [0, 0, 0, 1] ++ List.replicate 24 0 ++ [0, 1, 0, 0] ++ [0]

theorem mfa2_null_dereferenced :
    let fw : Firmware := ⟨shortMultiImage, fun _ => 0⟩
    mfa2Check fw = true ∧ .deref 56 none ∈ (mfa2Session fw 8 false []).log ∧
      ¬∀ access ∈ (mfa2Session fw 8 false []).log, access.Good fw := by
  have null : Access.deref 56 none ∈ (mfa2Session ⟨shortMultiImage, fun _ => 0⟩ 8 false []).log := by
    decide +kernel
  exact ⟨by decide +kernel, null, fun all => all _ null rfl⟩

end MlnxOfed.Mlxfw
