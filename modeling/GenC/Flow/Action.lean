import GenC.Flow.Datum

/-!
# Actions

What a function means: the check that is made when it is created, and what it makes of data when it is called.
Each way to combine functions is one of combining actions.
-/

namespace GenC

open Lib

/-- What materializing gives. -/
def Datum.shown (d : Datum) : Meaning Value := .ofExcept d.outcome

/-- `Checked` computations, which are the same everywhere. -/
def Checked.meaning {α : Type} : Checked α → Meaning α
  | some r => .ofExcept r
  | none => .crash .missingElement

/-- The meaning of a function. -/
structure Action where
  create : Meaning Unit
  call : Datum → Meaning Datum

namespace Action

/-- The function is created, and then called. -/
def apply (a : Action) (d : Datum) : Meaning Datum := do
  a.create
  a.call d

def createAll : List Action → Meaning Unit
  | [] => pure ()
  | a :: as => do
      a.create
      createAll as

/-! ## Sequences -/

/-- One after another. -/
def serial : List Action → Datum → Meaning Datum
  | [], d => pure d
  | a :: as, d => do
      let d ← a.apply d
      serial as d

/-- One after another, until a result is `true`. A result that is a Boolean is not passed on. -/
def breakable : List Action → Datum → Meaning Datum
  | [], d => pure d
  | a :: as, d => do
      let r ← a.apply d
      let pb ← r.shown
      match pb.boolean? with
      | none => breakable as r
      | some true => pure d
      | some false => breakable as d

/-- The same over functions that exist already. What is passed on is created anew, and the second component is
whether a result was `true`. -/
def round : List Action → Datum → Meaning (Datum × Bool)
  | [], d => pure (d, false)
  | a :: as, d => do
      let r ← a.call d
      let pb ← r.shown
      match pb.boolean? with
      | none => round as (.ofValue pb)
      | some true => pure (d, true)
      | some false => round as d

def rounds (as : List Action) : Nat → Datum → Meaning Datum
  | 0, d => pure d
  | n + 1, d => do
      let p ← round as d
      if p.2 then pure p.1 else rounds as n p.1

/-! ## Loops -/

def iterate (a : Action) : Nat → Datum → Meaning Datum
  | 0, d => pure d
  | n + 1, d => do
      let d ← a.call d
      iterate a n d

/-- The condition is asked, and if it holds the body is called. -/
def whileStep [ProtoText] (condition body : Action) (d : Datum) : Meaning (Datum ⊕ Datum) := do
  let r ← condition.call d
  let pb ← r.shown
  match pb.boolean? with
  | none => .throw (.invalidArgument ("Condition does not have boolean: " ++ debugString pb))
  | some true => do
      let d ← body.call d
      pure (.inl d)
  | some false => pure (.inr d)

def whileDo [ProtoText] (condition body : Action) : Datum → Meaning Datum :=
  Behavior.loop (whileStep condition body)

/-! ## Alternatives -/

/-- The result, if it can be materialized. -/
def answer (a : Action) (d : Datum) : Meaning Datum := do
  let r ← a.apply d
  let _ ← r.shown
  pure r

/-- The first that answers, or else the last error. -/
def firstOf : Status → List Action → Datum → Meaning Datum
  | errorStatus, [], _ => .throw errorStatus
  | _, a :: as, d => (a.answer d).handle pure fun e => firstOf e as d

/-! ## Maps -/

def mapOver (a : Action) : List Value → Meaning (List Datum)
  | [] => pure []
  | e :: es => do
      let r ← a.call (.ofValue e)
      let rs ← mapOver a es
      pure (r :: rs)

/-- The elements are those of what the argument materializes to. -/
def parallel (a : Action) (d : Datum) : Meaning Datum := do
  let args ← d.shown
  a.create
  let rs ← a.mapOver args.elements
  pure (.node rs)

/-! ## Inline intrinsics -/

/-- A handler is run where the argument did not fail, and what it fails with is only seen where the result is
materialized. -/
def inline [ProtoText] (handlers : IntrinsicHandlerSet) (intr : Intrinsic) : Action where
  create := do
    let handler ← .ofExcept (handlers.getHandler intr.uri)
    (handler.checkWellFormed intr).meaning
  call d :=
    match d.outcome with
    | .error e => pure (.leaf (.error e))
    | .ok arg => do
        let r ← Behavior.attempt do
          let handler ← .ofExcept (handlers.getHandler intr.uri)
          let interface ← .ofExcept handler.getInlineInterface
          (interface.executeCall intr arg).meaning
        pure (.leaf r)

section

variable [ProtoText] {handlers : IntrinsicHandlerSet} {intr : Intrinsic} {handler : IntrinsicHandler}
  {interface : InlineHandler} {d : Datum} {arg : Value}

theorem inline_call (hget : handlers.getHandler intr.uri = .ok handler)
    (hinterface : handler.interface = .inline interface) (ho : d.outcome = .ok arg) :
    (inline handlers intr).call d = (interface.executeCall intr arg).meaning.attempt >>= fun r =>
      pure (.leaf r) := by
  have hget' : handler.getInlineInterface = .ok interface := by
    rw [IntrinsicHandler.getInlineInterface, hinterface]
  simp only [inline, ho, hget, hget', Behavior.ofExcept_ok, pure_bind]

theorem inline_call_error {e : Status} (ho : d.outcome = .error e) :
    (inline handlers intr).call d = pure (.leaf (.error e)) := by
  simp only [inline, ho]

end

end Action

end GenC
