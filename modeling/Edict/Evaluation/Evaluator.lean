import Edict.Evaluation.Eval
import Edict.Native.Type

/-! # Evaluators

An evaluator is a scope, the converters, and the stack and the world that expressions work on.
-/

namespace Edict

/-- What expressions are evaluated with. -/
structure Evaluator (σ : Type) where
  scope : Scope σ
  /-- The number of the next selector. -/
  nextSelector : UInt32
  converters : Converters σ
  machine : Machine σ

namespace Evaluator

variable {σ α : Type}

def new (size : StackSize) (objects : Objects σ) (world : World σ) : Evaluator σ where
  scope := ⟨objects, [], .empty⟩
  nextSelector := 0
  converters := .empty
  machine := ⟨.ofSize size, world⟩

def perform (act : EvalM σ α) (ev : Evaluator σ) : Except EvalError α × Evaluator σ :=
  let (outcome, machine) := act.perform ev.scope ev.machine
  (outcome, { ev with machine })

/-! ## Registration -/

/-- Adds a selector.  It is asked before those added earlier. -/
def registerSelector (s : Selector σ) (ev : Evaluator σ) : SelectorId × Evaluator σ :=
  let id : SelectorId := ⟨ev.nextSelector⟩
  (id,
    { ev with
      scope := { ev.scope with selectors := (id, s) :: ev.scope.selectors }
      nextSelector := ev.nextSelector + 1 })

/-- Removes the selector of a handle and tells whether there was one. -/
def unregisterSelector (id : SelectorId) (ev : Evaluator σ) : Bool × Evaluator σ :=
  let kept := ev.scope.selectors.filter (·.1 ≠ id)
  (kept.length ≠ ev.scope.selectors.length,
    { ev with scope := { ev.scope with selectors := kept } })

/-- Sets how objects of a type are made and tells whether that replaces another way. -/
def registerInitializer (typeName : String) (initializer : Initializer σ) (ev : Evaluator σ) :
    Bool × Evaluator σ :=
  (ev.scope.initializers.contains typeName,
    { ev with
      scope := { ev.scope with
        initializers := ev.scope.initializers.insert typeName initializer } })

/-- Forgets how objects of a type are made and tells whether it was known. -/
def unregisterInitializer (typeName : String) (ev : Evaluator σ) : Bool × Evaluator σ :=
  (ev.scope.initializers.contains typeName,
    { ev with
      scope := { ev.scope with initializers := ev.scope.initializers.erase typeName } })

/-- Sets the converter between two types. -/
def registerConverter (source target : TypeId) (convert : Converter σ)
    (ev : Evaluator σ) : Evaluator σ :=
  { ev with converters := ev.converters.insert (source, target) convert }

/-- Removes the converter between two types and tells whether there was one. -/
def unregisterConverter (source target : TypeId) (ev : Evaluator σ) :
    Bool × Evaluator σ :=
  (ev.converters.contains (source, target),
    { ev with converters := ev.converters.erase (source, target) })

def convert (v : Value) (target : TypeId) (ev : Evaluator σ) :
    Except EvalError Value × Evaluator σ :=
  let (outcome, world) := (ev.converters.convert v target).run ev.machine.world
  (outcome, { ev with machine := { ev.machine with world } })

def dump (ev : Evaluator σ) : String :=
  "Evaluator \x7b stack: " ++ ev.machine.stack.dump ++ ", selectors: "
    ++ toString ev.scope.selectors.length ++ ", initializers: "
    ++ toString ev.scope.initializers.size ++ ", converters: " ++ ev.converters.dump ++ " \x7d"

end Evaluator

end Edict
