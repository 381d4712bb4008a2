import Mathlib.Data.List.Basic

/-!
# Authorizer rules that combine callables

`allow_if` of `reboot/aio/auth/authorizers.py` and `allowIf` of `reboot/nodejs/index.ts` make a rule
from a list of callables, of which `all` or `any` have to return `Ok`. The rule invokes them one at a
time until the decision is clear.

> `Sound`: in `all` mode `Ok` takes a callable and an `Ok` of each, in `any` mode it takes one `Ok`, a
> denial in `any` mode is `PermissionDenied` where some callable said so, and the two languages agree.

Neither loop has a branch for a value that is not a decision, so that `all` takes it for an `Ok`, and
an empty `all` is refused in Python only: `all or any` is then `None`. `sound_iff` says that nothing
else goes wrong.

Mirroring notes:
- A callable reads and changes a world: the later ones see what the earlier ones have done.
- The loops are the same in both languages; what differs is how an awaitable is told and that Python
  asserts that nothing was denied in `all` mode.
- `none` is an exception: the `AssertionError` or the `Error` of a call with neither or both lists.
-/

namespace Reboot.Auth.Rules

variable {W V : Type}

/-! ## Model -/

/-- `Authorizer.Decision` -/
inductive Decision
  | ok | unauthenticated | permissionDenied
  deriving DecidableEq

/-- What a callable may answer, in whatever its annotation says. -/
inductive Value (V : Type)
  | decision (decision : Decision)
  | other (value : V)
  deriving DecidableEq

inductive Returned (V : Type)
  | plain (value : Value V)
  | awaitable (value : Value V)
  deriving DecidableEq

/-- `AuthorizerCallable` -/
abbrev Callable (W V : Type) := W → Returned V × W

structure Args (W V : Type) where
  all : Option (List (Callable W V))
  any : Option (List (Callable W V))

structure Rule (W V : Type) where
  callables : List (Callable W V)
  requiresAll : Bool

/-- `all or any`: an empty list is false. -/
def pythonOr (all any : Option (List (Callable W V))) : Option (List (Callable W V)) :=
  match all with
  | some (callable :: callables) => some (callable :: callables)
  | _ => any

/-- Python's `allow_if`. -/
def pythonAllowIf (args : Args W V) : Option (Rule W V) :=
  if (args.all.isSome && args.any.isNone) || (args.all.isNone && args.any.isSome) then
    match pythonOr args.all args.any with
    | none => none
    | some callables => some ⟨callables, args.all.isSome⟩
  else none

/-- TypeScript's `allowIf`. -/
def typescriptAllowIf (args : Args W V) : Option (Rule W V) :=
  if (args.all.isNone && args.any.isNone) || (args.all.isSome && args.any.isSome) then none
  else
    match args.all.or args.any with
    | none => none
    | some callables => some ⟨callables, args.all.isSome⟩

/-- `invoke`: only an awaitable is awaited. -/
def pythonInvoke : Returned V → Value V
  | .plain value => value
  | .awaitable value => value

/-- `await` of anything. -/
def typescriptInvoke : Returned V → Value V
  | .plain value | .awaitable value => value

/-- The loop of `execute`, with what it returns at the end. -/
def executeFrom (invoke : Returned V → Value V) (finish : Bool → Option Decision)
    (requiresAll : Bool) : List (Callable W V) → Bool → W → Option Decision × W
  | [], denied, world => (finish denied, world)
  | callable :: callables, denied, world =>
    let (returned, world) := callable world
    match invoke returned with
    | .decision .ok =>
      if requiresAll then executeFrom invoke finish requiresAll callables denied world
      else (some .ok, world)
    | .decision .unauthenticated =>
      if requiresAll then (some .unauthenticated, world)
      else executeFrom invoke finish requiresAll callables denied world
    | .decision .permissionDenied =>
      if requiresAll then (some .permissionDenied, world)
      else executeFrom invoke finish requiresAll callables true world
    | .other _ => executeFrom invoke finish requiresAll callables denied world

/-- `AllowIfAuthorizerRule.execute` -/
def pythonExecute (rule : Rule W V) (world : W) : Option Decision × W :=
  executeFrom pythonInvoke
    (fun denied =>
      if rule.requiresAll then if denied then none else some .ok
      else if denied then some .permissionDenied
      else some .unauthenticated)
    rule.requiresAll rule.callables false world

/-- `execute` of the class in `allowIf`. -/
def typescriptExecute (rule : Rule W V) (world : W) : Option Decision × W :=
  executeFrom typescriptInvoke
    (fun denied =>
      if rule.requiresAll then some .ok
      else if denied then some .permissionDenied
      else some .unauthenticated)
    rule.requiresAll rule.callables false world

/-! ## What a rule promises -/

/-- What the callables of a list answer, each in the world that the earlier ones have left. -/
def returnedValues : List (Callable W V) → W → List (Value V)
  | [], _ => []
  | callable :: callables, world =>
    pythonInvoke (callable world).1 :: returnedValues callables (callable world).2

/-- A decision in `all` mode. -/
def AllSound (callables : List (Callable W V)) (world : W) (decision : Option Decision) : Prop :=
  decision = some .ok →
    callables ≠ [] ∧ ∀ value ∈ returnedValues callables world, value = .decision .ok

/-- A decision in `any` mode. -/
structure AnySound (callables : List (Callable W V)) (world : W) (decision : Option Decision) :
    Prop where
  ok : decision = some .ok ↔ .decision .ok ∈ returnedValues callables world
  denied : decision ≠ some .ok → (decision = some .permissionDenied ↔
    .decision .permissionDenied ∈ returnedValues callables world) ∧
      (decision = some .unauthenticated ↔
        .decision .permissionDenied ∉ returnedValues callables world)

/-- What is promised of a call of `allow_if` in both languages. -/
structure Sound (args : Args W V) (world : W) : Prop where
  all : ∀ callables, args.all = some callables →
    (∀ rule ∈ pythonAllowIf args, AllSound callables world (pythonExecute rule world).1) ∧
      ∀ rule ∈ typescriptAllowIf args, AllSound callables world (typescriptExecute rule world).1
  any : ∀ callables, args.any = some callables →
    (∀ rule ∈ pythonAllowIf args, AnySound callables world (pythonExecute rule world).1) ∧
      ∀ rule ∈ typescriptAllowIf args, AnySound callables world (typescriptExecute rule world).1
  agree : (pythonAllowIf args).map (pythonExecute · world) =
    (typescriptAllowIf args).map (typescriptExecute · world)

/-- An answer that ends `all`. -/
def Value.isDenial : Value V → Bool
  | .decision .unauthenticated | .decision .permissionDenied => true
  | _ => false

def Value.isDecision : Value V → Bool
  | .decision _ => true
  | .other _ => false

/-- In `all` mode alone the list is not empty, and where nobody denies everybody answers with a
decision. -/
def Decides (args : Args W V) (world : W) : Prop :=
  ∀ callables, args.all = some callables → args.any = none →
    callables ≠ [] ∧ ((∃ value ∈ returnedValues callables world, value.isDenial = true) ∨
      ∀ value ∈ returnedValues callables world, value.isDecision = true)

/-! ## The loop -/

theorem typescriptInvoke_eq : (typescriptInvoke : Returned V → Value V) = pythonInvoke := by
  funext returned
  cases returned <;> rfl

/-- In `all` mode `Ok` is what is left where nobody denies. -/
theorem executeFrom_all_iff {finish : Bool → Option Decision} (hfinish : finish false = some .ok)
    (callables : List (Callable W V)) (world : W) :
    (executeFrom pythonInvoke finish true callables false world).1 = some .ok ↔
      ∀ value ∈ returnedValues callables world, value.isDenial = false := by
  induction callables generalizing world with
  | nil => simp [executeFrom, returnedValues, hfinish]
  | cons callable callables ih =>
    simp only [executeFrom, returnedValues, List.forall_mem_cons]
    split
    · next heq => simp [heq, Value.isDenial, ih]
    · next heq => simp [heq, Value.isDenial]
    · next heq => simp [heq, Value.isDenial]
    · next heq => simp [heq, Value.isDenial, ih]

/-- Whether an answer is this decision. -/
def Value.is (decision : Decision) : Value V → Bool
  | .decision d => d = decision
  | .other _ => false

theorem any_is_iff {decision : Decision} {values : List (Value V)} :
    values.any (Value.is decision) = true ↔ .decision decision ∈ values := by
  rw [List.any_eq_true]
  constructor
  · rintro ⟨value, hvalue, his⟩
    cases value with
    | decision d =>
      have heq : d = decision := by simpa [Value.is] using his
      exact heq ▸ hvalue
    | other value => simp [Value.is] at his
  · intro hmem
    exact ⟨_, hmem, by simp [Value.is]⟩

/-- In `any` mode the first `Ok` decides, and else whether somebody has denied. -/
theorem executeFrom_any {finish : Bool → Option Decision} (callables : List (Callable W V))
    (denied : Bool) (world : W) :
    (executeFrom pythonInvoke finish false callables denied world).1 =
      if (returnedValues callables world).any (Value.is .ok) then some .ok
      else finish (denied || (returnedValues callables world).any (Value.is .permissionDenied)) := by
  induction callables generalizing denied world with
  | nil => simp [executeFrom, returnedValues]
  | cons callable callables ih =>
    simp only [executeFrom, returnedValues, List.any_cons]
    split
    · next heq => simp [heq, Value.is]
    · next heq => simp [heq, Value.is, ih]
    · next heq => simp [heq, Value.is, ih]
    · next heq => simp [heq, Value.is, ih]

/-- What the loop returns at the end matters only for the flag that it has. -/
theorem executeFrom_congr {invoke : Returned V → Value V} {finish finish' : Bool → Option Decision}
    (h : finish false = finish' false) (callables : List (Callable W V)) (world : W) :
    executeFrom invoke finish true callables false world =
      executeFrom invoke finish' true callables false world := by
  induction callables generalizing world with
  | nil => simp [executeFrom, h]
  | cons callable callables ih =>
    simp only [executeFrom, ih]
    rfl

/-! ## The rules -/

theorem pythonExecute_all_iff (callables : List (Callable W V)) (world : W) :
    (pythonExecute ⟨callables, true⟩ world).1 = some .ok ↔
      ∀ value ∈ returnedValues callables world, value.isDenial = false :=
  executeFrom_all_iff rfl callables world

theorem typescriptExecute_eq (rule : Rule W V) (world : W) :
    typescriptExecute rule world = pythonExecute rule world := by
  obtain ⟨callables, requiresAll⟩ := rule
  unfold typescriptExecute pythonExecute
  rw [typescriptInvoke_eq]
  cases requiresAll with
  | true =>
    refine executeFrom_congr ?_ callables world
    rfl
  | false => rfl

/-- `any` mode is as it should be. -/
theorem anySound_pythonExecute (callables : List (Callable W V)) (world : W) :
    AnySound callables world (pythonExecute ⟨callables, false⟩ world).1 := by
  have hdecision : (pythonExecute ⟨callables, false⟩ world).1 =
      if (returnedValues callables world).any (Value.is .ok) then some .ok
      else if (returnedValues callables world).any (Value.is .permissionDenied) then
        some .permissionDenied
      else some .unauthenticated := by
    unfold pythonExecute
    rw [executeFrom_any]
    simp
  rw [hdecision]
  by_cases hok : (returnedValues callables world).any (Value.is .ok) = true
  · rw [if_pos hok]
    exact ⟨iff_of_true rfl (any_is_iff.mp hok), fun hne => absurd rfl hne⟩
  rw [if_neg hok]
  have hnotOk : .decision .ok ∉ returnedValues callables world := fun hmem =>
    hok (any_is_iff.mpr hmem)
  by_cases hdenied : (returnedValues callables world).any (Value.is .permissionDenied) = true
  · have hmem := any_is_iff.mp hdenied
    rw [if_pos hdenied]
    exact ⟨iff_of_false nofun hnotOk, fun _ =>
      ⟨iff_of_true rfl hmem, iff_of_false nofun (not_not_intro hmem)⟩⟩
  · have hnotMem : .decision .permissionDenied ∉ returnedValues callables world := fun hmem =>
      hdenied (any_is_iff.mpr hmem)
    rw [if_neg hdenied]
    exact ⟨iff_of_false nofun hnotOk, fun _ => ⟨iff_of_false nofun hnotMem, iff_of_true rfl hnotMem⟩⟩

/-- Where nobody denies an answer is `Ok` or is no decision. -/
theorem allSound_iff (callables : List (Callable W V)) (world : W) (hne : callables ≠ []) :
    AllSound callables world (pythonExecute ⟨callables, true⟩ world).1 ↔
      (∃ value ∈ returnedValues callables world, value.isDenial = true) ∨
        ∀ value ∈ returnedValues callables world, value.isDecision = true := by
  unfold AllSound
  rw [pythonExecute_all_iff]
  constructor
  · intro hsound
    by_cases hdenial : ∃ value ∈ returnedValues callables world, value.isDenial = true
    · exact .inl hdenial
    · right
      intro value hvalue
      have hnone : ∀ value ∈ returnedValues callables world, value.isDenial = false :=
        fun value hvalue => by simpa using fun h => hdenial ⟨value, hvalue, h⟩
      rw [(hsound hnone).2 value hvalue]
      rfl
  · rintro (⟨value, hvalue, hdenial⟩ | hdecisions) hnone
    · rw [hnone value hvalue] at hdenial
      cases hdenial
    · refine ⟨hne, fun value hvalue => ?_⟩
      have hnot := hnone value hvalue
      have his := hdecisions value hvalue
      cases value with
      | decision decision =>
        cases decision with
        | ok => rfl
        | unauthenticated => cases hnot
        | permissionDenied => cases hnot
      | other value => cases his

/-- The rules are sound in both languages exactly where `Decides` holds. -/
theorem sound_iff (args : Args W V) (world : W) : Sound args world ↔ Decides args world := by
  obtain ⟨all, any⟩ := args
  cases all with
  | none =>
    have hdecides : Decides ⟨none, any⟩ world := fun _ hnone => (nomatch hnone)
    refine iff_of_true ⟨fun _ hnone => (nomatch hnone), fun callables hany => ?_, ?_⟩ hdecides
    · obtain rfl : any = some callables := hany
      refine ⟨fun rule hrule => ?_, fun rule hrule => ?_⟩
      · obtain rfl : ⟨callables, false⟩ = rule := Option.some.inj hrule
        exact anySound_pythonExecute callables world
      · obtain rfl : ⟨callables, false⟩ = rule := Option.some.inj hrule
        rw [typescriptExecute_eq]
        exact anySound_pythonExecute callables world
    · cases any with
      | none => rfl
      | some callables =>
        exact congrArg some (typescriptExecute_eq ⟨callables, false⟩ world).symm
  | some callables =>
    cases any with
    | some others =>
      have hdecides : Decides ⟨some callables, some others⟩ world := fun _ _ hnone => (nomatch hnone)
      exact iff_of_true ⟨fun _ _ => ⟨fun _ hnone => (nomatch hnone), fun _ hnone => (nomatch hnone)⟩,
        fun _ _ => ⟨fun _ hnone => (nomatch hnone), fun _ hnone => (nomatch hnone)⟩, rfl⟩ hdecides
    | none =>
      cases callables with
      | nil =>
        refine iff_of_false (fun hsound => ?_) fun hdecides => (hdecides [] rfl rfl).1 rfl
        have hagree : none = some (typescriptExecute ⟨[], true⟩ world) := hsound.agree
        cases hagree
      | cons callable callables =>
        have hne : callable :: callables ≠ [] := nofun
        constructor
        · intro hsound callables' hcallables _
          obtain rfl : callable :: callables = callables' := Option.some.inj hcallables
          have hall := (hsound.all _ rfl).1 ⟨callable :: callables, true⟩ rfl
          exact ⟨hne, (allSound_iff _ world hne).mp hall⟩
        · intro hdecides
          have hall := (allSound_iff _ world hne).mpr (hdecides _ rfl rfl).2
          refine ⟨fun callables' hcallables => ?_, fun _ hnone => (nomatch hnone), ?_⟩
          · obtain rfl : callable :: callables = callables' := Option.some.inj hcallables
            refine ⟨fun rule hrule => ?_, fun rule hrule => ?_⟩
            · obtain rfl : ⟨callable :: callables, true⟩ = rule := Option.some.inj hrule
              exact hall
            · obtain rfl : ⟨callable :: callables, true⟩ = rule := Option.some.inj hrule
              rw [typescriptExecute_eq]
              exact hall
          · exact congrArg some (typescriptExecute_eq ⟨callable :: callables, true⟩ world).symm

/-- An empty `all` is `Ok` in TypeScript, and so is one whose callable returns `None` in both. -/
theorem allowIf_open :
    (¬ Sound (W := Unit) (V := Unit) ⟨some [], none⟩ ()) ∧
      ¬ Sound (W := Unit) ⟨some [fun world => (.plain (.other ()), world)], none⟩ () := by
  constructor
  · intro hsound
    have hrule : (⟨[], true⟩ : Rule Unit Unit) ∈ typescriptAllowIf ⟨some [], none⟩ := rfl
    exact ((hsound.all [] rfl).2 _ hrule rfl).1 rfl
  · intro hsound
    have hrule : (⟨[fun world => (.plain (.other ()), world)], true⟩ : Rule Unit Unit) ∈
        pythonAllowIf ⟨some [fun world => (.plain (.other ()), world)], none⟩ := rfl
    have heq := ((hsound.all _ rfl).1 _ hrule rfl).2 (.other ()) (List.mem_singleton.mpr rfl)
    cases heq

end Reboot.Auth.Rules
