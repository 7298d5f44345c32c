import GuardedStore.Security.Role
import GuardedStore.Store.Batch
import GuardedStore.Wire.Message

/-!
# Admission

A request is admitted if every text in it spells a key and the user may do with each key what the
request asks: keys that are read or updated must be granted for reading, keys that are deleted for
writing.  All that is wrong is reported at once, and one fault vetoes the whole request.
-/

namespace GuardedStore

/-- The keys that texts spell, each with what comes with its text, and the errors of the others. -/
def User.authorizeAll {α : Type} (u : User) (action : Action) :
    List (String × α) → List (Key × α) × List StoreError
  | [] => ([], [])
  | (raw, a) :: rest =>
    let (keys, errors) := u.authorizeAll action rest
    match u.authorize action raw with
    | .ok key => ((key, a) :: keys, errors)
    | .error e => (keys, e :: errors)

/-- The batch that a request asks for, or all that speaks against it.  When several texts spell one
updated key, the value of the last one counts. -/
def User.batchOf (u : User) (request : Wire.Request) : Except (List StoreError) Batch :=
  let (read, readErrors) := u.authorizeAll .read request.read.toList
  let (update, updateErrors) := u.authorizeAll .read request.update.toList
  let (delete, deleteErrors) := u.authorizeAll .write request.delete.toList
  let errors := readErrors ++ updateErrors ++ deleteErrors
  if errors.isEmpty then .ok ⟨.ofList read, .ofList update, .ofList delete⟩ else .error errors

end GuardedStore
