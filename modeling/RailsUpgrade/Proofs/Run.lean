import RailsUpgrade.Workspace

/-!
# `RailsUpgrade.Proofs.Run`: what a run leaves behind

`Run.exec` starts a run on a workspace: it gives the result or the failure, and the workspace
afterwards. Every operation of a run has one equation for `exec`, so that later proofs never open
the monad:

* `exec_bind`, `exec_bind_eq_ok`: one run after the other;
* `exec_tree`, `exec_note`, `write_eq_ok`: the operations on a workspace.
-/

set_option autoImplicit false

namespace RailsUpgrade.Run

variable {α β : Type}

/-- Starts a run on a workspace. -/
def exec (x : Run α) (w : Workspace) : Except Failure α × Workspace := (ExceptT.run x).run w

@[simp] theorem exec_pure (a : α) (w : Workspace) : exec (pure a) w = (.ok a, w) := rfl

@[simp] theorem exec_throw (failure : Failure) (w : Workspace) :
    exec (throw failure : Run α) w = (.error failure, w) :=
  rfl

/-- One run after the other. -/
theorem exec_bind (x : Run α) (f : α → Run β) (w : Workspace) :
    exec (x >>= f) w = match exec x w with
      | (.ok a, w') => exec (f a) w'
      | (.error failure, w') => (.error failure, w') := by
  have hbind : exec (x >>= f) w = (ExceptT.bindCont f (exec x w).1).run (exec x w).2 := rfl
  rw [hbind]
  cases exec x w with
  | mk result w' => cases result <;> rfl

theorem exec_bind_of_ok {x : Run α} {f : α → Run β} {w w' : Workspace} {a : α}
    (h : exec x w = (.ok a, w')) : exec (x >>= f) w = exec (f a) w' := by
  rw [exec_bind, h]

theorem exec_bind_of_error {x : Run α} {f : α → Run β} {w w' : Workspace} {failure : Failure}
    (h : exec x w = (.error failure, w')) : exec (x >>= f) w = (.error failure, w') := by
  rw [exec_bind, h]

/-- What succeeds did so in both of its parts. -/
theorem exec_bind_eq_ok {x : Run α} {f : α → Run β} {w w' : Workspace} {b : β}
    (h : exec (x >>= f) w = (.ok b, w')) :
    ∃ a w₁, exec x w = (.ok a, w₁) ∧ exec (f a) w₁ = (.ok b, w') := by
  cases hx : exec x w with
  | mk result w₁ => cases result with
    | ok a => exact ⟨a, w₁, rfl, by rw [← h, exec_bind_of_ok hx]⟩
    | error failure =>
      rw [exec_bind_of_error hx] at h
      cases h

/-- A run that does not fail has a result. -/
theorem exists_of_isOk {x : Run α} {w : Workspace} (h : (exec x w).1.isOk = true) :
    ∃ a w', exec x w = (.ok a, w') := by
  cases hx : exec x w with
  | mk result w' => cases result with
    | ok a => exact ⟨a, w', rfl⟩
    | error failure =>
      rw [hx] at h
      cases h

theorem eq_ok_of_toOption {ε : Type} {x : Except ε α} {a : α} (h : x.toOption = some a) :
    x = .ok a := by
  cases x with
  | ok b => rw [Option.some.inj h]
  | error e => cases h

@[simp] theorem exec_tree (w : Workspace) : exec tree w = (.ok w.tree, w) := rfl

@[simp] theorem exec_noteAll (notices : List Notice) (w : Workspace) :
    exec (noteAll notices) w = (.ok (), { w with notices := w.notices ++ notices }) :=
  rfl

@[simp] theorem exec_note (notice : Notice) (w : Workspace) :
    exec (note notice) w = (.ok (), { w with notices := w.notices ++ [notice] }) :=
  rfl

@[simp] theorem exec_tree_bind (f : Tree → Run α) (w : Workspace) :
    exec (tree >>= f) w = exec (f w.tree) w :=
  rfl

theorem exec_filesOf_bind (root : Root) (glob : String) (f : List String → Run α) (w : Workspace) :
    exec (filesOf root glob >>= f) w = exec (f ((Glob.files? w.tree root glob).getD [])) w :=
  rfl

@[simp] theorem exec_note_bind (notice : Notice) (f : Unit → Run α) (w : Workspace) :
    exec (note notice >>= f) w = exec (f ()) { w with notices := w.notices ++ [notice] } :=
  rfl

/-- A write that the tree admits. -/
theorem exec_write_ok {w : Workspace} {root : Root} {path : String} {text : List Char} {t : Tree}
    {place : Place} (h : w.tree.write root path text = .ok (t, place)) :
    exec (write root path text) w =
      (.ok (), { w with tree := t, writes := w.writes ++ [⟨place, Text.encode text⟩] }) := by
  rw [write, exec_tree_bind, h]
  rfl

/-- A write that succeeds is one that the tree admits. -/
theorem write_eq_ok {w w' : Workspace} {root : Root} {path : String} {text : List Char}
    (h : exec (write root path text) w = (.ok (), w')) :
    ∃ place, w.tree.write root path text = .ok (w'.tree, place) := by
  cases hwrite : w.tree.write root path text with
  | error fault =>
    rw [write, exec_tree_bind, hwrite] at h
    cases h
  | ok result =>
    rw [exec_write_ok hwrite] at h
    cases h
    exact ⟨result.2, rfl⟩

end RailsUpgrade.Run
