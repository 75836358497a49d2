import Stencil.Cache.Store

/-!
# Calls

What the library is asked for, one call after the other, with the caches between the calls.

* `Call`, `Reply` — a call, and what it returns; shared structures come with their serial numbers.
* `Store.perform`, `Store.after` — one call, and the store that a history of calls leaves.
-/

namespace Stencil

/-- What the library can be asked for. -/
inductive Call where
  | compile (template : String)
  | field (raw : String)
  | format (template : String) (args : List Value)
  | formatWith (template : String) (args : List Value) (options : Options)
  /-- The text of a template that is compiled already. -/
  | render (template : Template Field) (args : List Value) (options : Options)
  | clear

/-- What a call returns. -/
inductive Reply where
  | template (result : Except FormatError (Shared (Template (Shared Field))))
  | field (result : Except FormatError (Shared Field))
  | text (result : Except FormatError String)
  | done

namespace Store

/-- The reply to a call, and the store it leaves. -/
def perform (store : Store) : Call → Reply × Store
  | .compile template => (.template (store.compile template).1, (store.compile template).2)
  | .field raw => (.field (store.field raw).1, (store.field raw).2)
  | .format template args =>
    (.text (store.formatWith template args {}).1, (store.formatWith template args {}).2)
  | .formatWith template args options =>
    (.text (store.formatWith template args options).1,
      (store.formatWith template args options).2)
  | .render template args options => (.text (Template.render template args options), store)
  | .clear => (.done, store.clear)

/-- The store that calls leave, the first of them first. -/
def after (store : Store) (calls : List Call) : Store :=
  calls.foldl (fun store call => (store.perform call).2) store

end Store

end Stencil
