import Stencil.Cache.Recency
import Stencil.Render.Template

/-!
# Shared fields and templates

Fields and templates are read once and shared as long as a cache holds them. What is shared carries
a serial number, so that it can be told whether two calls gave the same structure or only equal
ones. A template that fails is not stored, but the fields read before the failure are.

* `Shared` — a structure with its serial number.
* `Store` — both caches and the next serial number.
* `Store.field`, `Store.compile`, `Store.formatWith`, `Store.clear` — the calls, each with the
  store it leaves.
-/

namespace Stencil

/-- A structure that is shared, told from equal ones by its serial number. -/
structure Shared (α : Type) where
  serial : Nat
  content : α
  deriving DecidableEq, Repr

/-- The greatest number of templates that are kept. -/
def templateCapacity : Nat := 512

/-- The greatest number of fields that are kept. -/
def fieldCapacity : Nat := 1024

/-- The greatest length in bytes of a text that is kept. -/
def maxKeptBytes : Nat := 4096

/-- What is kept between calls. -/
structure Store where
  templates : Recency (Shared (Template (Shared Field))) :=
    { capacity := templateCapacity, maxKeyBytes := some maxKeptBytes }
  fields : Recency (Shared Field) :=
    { capacity := fieldCapacity, maxKeyBytes := some maxKeptBytes }
  nextSerial : Nat := 0

namespace Store

/-- The field of a text, shared with earlier calls while it is kept. -/
def field (store : Store) (raw : String) : Except FormatError (Shared Field) × Store :=
  match store.fields.get raw with
  | (some shared, fields) => (.ok shared, { store with fields })
  | (none, fields) =>
    match parseField raw with
    | .ok content =>
      let shared : Shared Field := { serial := store.nextSerial, content }
      (.ok shared,
        { store with fields := fields.set raw shared, nextSerial := store.nextSerial + 1 })
    | .error e => (.error e, { store with fields })

/-- The segments of a list of tokens, up to the first field that fails. -/
def segments (store : Store) :
    List Token → Except FormatError (Template (Shared Field)) × Store
  | [] => (.ok [], store)
  | .literal text :: rest =>
    let (result, store) := store.segments rest
    (result.map (.literal (String.ofList text) :: ·), store)
  | .field text :: rest =>
    match store.field (String.ofList text) with
    | (.ok shared, store) =>
      let (result, store) := store.segments rest
      (result.map (.field shared :: ·), store)
    | (.error e, store) => (.error e, store)

/-- The compiled form of a template, shared with earlier calls while it is kept. -/
def compile (store : Store) (template : String) :
    Except FormatError (Shared (Template (Shared Field))) × Store :=
  match store.templates.get template with
  | (some shared, templates) => (.ok shared, { store with templates })
  | (none, templates) =>
    let store := { store with templates }
    match tokenize template with
    | .error e => (.error e, store)
    | .ok tokens =>
      match store.segments tokens with
      | (.error e, store) => (.error e, store)
      | (.ok content, store) =>
        let shared : Shared (Template (Shared Field)) := { serial := store.nextSerial, content }
        (.ok shared,
          { store with
            templates := store.templates.set template shared
            nextSerial := store.nextSerial + 1 })

/-- A template whose fields are not shared. -/
def unshare (template : Template (Shared Field)) : Template Field :=
  template.map (Segment.map Shared.content)

/-- The text of a template, compiled through the caches. -/
def formatWith (store : Store) (template : String) (args : List Value) (options : Options) :
    Except FormatError String × Store :=
  match store.compile template with
  | (.ok shared, store) => (Template.render (unshare shared.content) args options, store)
  | (.error e, store) => (.error e, store)

/-- The store without anything kept; serial numbers go on. -/
def clear (store : Store) : Store :=
  { store with templates := store.templates.clear, fields := store.fields.clear }

end Store

end Stencil
