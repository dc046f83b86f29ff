import LintEngine.Detector.Basic
import Mathlib.Data.List.Basic

/-!
What a task does, as data: `Task.Does` names the findings and the facts that
it hands in and the world that it leaves, and says that it does nothing else.

Most tasks of a detector depend on the view alone. `Task.Tells` says so: the
same findings and facts are handed in under whatever settings the view is
looked at, and the world stays as it is. Both are closed under the ways in
which tasks are put together, so what a detector does is read off its text.
-/

namespace LintEngine

namespace Task

variable {W S : Type} {α β : Type}

def findingAt (v : View) (issue : Issue) (node : NodeId) (message : String) : Finding :=
  { Finding.new issue (v.tree.location node) message with anchor := some node }

/-- `t` returns `a`, turns `world` into `world'`, and hands in findings and
facts; the private state of the detector stays as it is. -/
def Does (t : Task W S α) (env : Env W) (world : World W) (a : α) (world' : World W)
    (reports : List Finding) (recorded : Data) : Prop :=
  ∀ me desk, desk.world = world → (t.run (env, me)).run desk =
    (.ok a, { desk with
      world := world'
      reports := desk.reports ++ reports
      recorded := desk.recorded ++ recorded })

namespace Does

variable {env : Env W} {w w' w'' : World W} {a : α} {b : β} {reports reports' : List Finding}
  {recorded recorded' : Data}

theorem pure (a : α) (env : Env W) (w : World W) :
    Does (pure a : Task W S α) env w a w [] [] := by
  rintro me desk rfl
  simp only [List.append_nil]
  rfl

theorem bind {t : Task W S α} {f : α → Task W S β} (h : t.Does env w a w' reports recorded)
    (h' : (f a).Does env w' b w'' reports' recorded') :
    (t >>= f).Does env w b w'' (reports ++ reports') (recorded ++ recorded') := by
  intro me desk hw
  have hf := h' me
    { desk with
      world := w'
      reports := desk.reports ++ reports
      recorded := desk.recorded ++ recorded } rfl
  simp only [List.append_assoc] at hf
  rw [← hf]
  change (ExceptT.run (t.run (env, me) >>= fun a => (f a).run (env, me))) desk = _
  rw [ExceptT.run_bind]
  change StateT.bind _ _ desk = _
  rw [StateT.bind]
  rw [h me desk hw]
  rfl

theorem read_bind {t : Task W S α} {f : α → Task W S β} (h : t.Does env w a w [] [])
    (h' : (f a).Does env w b w' reports recorded) : (t >>= f).Does env w b w' reports recorded :=
  h.bind h'

theorem env_ (env : Env W) (w : World W) : (Task.env : Task W S _).Does env w env w [] [] := by
  rintro me desk rfl
  simp only [List.append_nil]
  rfl

theorem view_ (env : Env W) (w : World W) :
    (Task.view : Task W S _).Does env w env.view w [] [] :=
  (env_ env w).read_bind (pure _ env w)

theorem tree_ (env : Env W) (w : World W) :
    (Task.tree : Task W S _).Does env w env.view.tree w [] [] :=
  (env_ env w).read_bind (pure _ env w)

theorem finding (issue : Issue) (node : NodeId) (message : String) (env : Env W) (w : World W) :
    (Task.finding issue node message : Task W S _).Does env w
      (findingAt env.view issue node message) w [] [] :=
  (tree_ env w).read_bind (pure _ env w)

theorem report (f : Finding) (env : Env W) (w : World W) :
    (Task.report f : Task W S _).Does env w () w [f] [] := by
  rintro me desk rfl
  simp only [List.append_nil]
  rfl

theorem reportAt (issue : Issue) (node : NodeId) (message : String) (env : Env W) (w : World W) :
    (Task.reportAt issue node message : Task W S _).Does env w () w
      [findingAt env.view issue node message] [] :=
  (finding issue node message env w).read_bind (report _ env w)

theorem forM {f : α → Task W S Unit} {found : α → Finding}
    (h : ∀ x, (f x).Does env w () w [found x] []) (l : List α) :
    (l.forM f).Does env w () w (l.map found) [] := by
  induction l with
  | nil => exact pure () env w
  | cons x l ih => exact (h x).bind ih

theorem recordFact (key : String) (v : DataValue) (env : Env W) (w : World W) :
    (Task.recordFact key v : Task W S _).Does env w () w [] [(key, v)] := by
  rintro me desk rfl
  simp only [List.append_nil]
  rfl

theorem latestVersion (lookup : Lookup W) (group artifact : String) (allowPreview : Bool)
    (env : Env W) (w : World W) :
    (Task.latestVersion lookup group artifact allowPreview : Task W S _).Does env w
      (lookup group artifact allowPreview w).1 (lookup group artifact allowPreview w).2 [] [] := by
  rintro me desk rfl
  simp only [List.append_nil]
  rfl

end Does

/-- `t` hands in findings and facts that depend on the view alone, and does
nothing else; `P` holds of the findings and `Q` of the keys of the facts. -/
def Tells (v : View) (P : Finding → Prop) (Q : String → Prop) (t : Task W S Unit) : Prop :=
  ∃ reports recorded, (∀ f ∈ reports, P f) ∧ (∀ fact ∈ recorded, Q fact.1) ∧
    ∀ env, env.view = v → ∀ world, t.Does env world () world reports recorded

namespace Tells

variable {v : View} {P : Finding → Prop} {Q : String → Prop}

theorem pure : Tells v P Q (pure () : Task W S Unit) :=
  ⟨[], [], by simp, by simp, fun env _ world => Does.pure () env world⟩

theorem mono {t : Task W S Unit} {P' : Finding → Prop} (h : t.Tells v P Q)
    (hP : ∀ f, P f → P' f) : t.Tells v P' Q := by
  obtain ⟨reports, recorded, hreports, hrecorded, hdoes⟩ := h
  exact ⟨reports, recorded, fun f hf => hP f (hreports f hf), hrecorded, hdoes⟩

theorem seq {t t' : Task W S Unit} (h : t.Tells v P Q) (h' : t'.Tells v P Q) :
    (t >>= fun _ => t').Tells v P Q := by
  obtain ⟨reports, recorded, hP, hQ, hdoes⟩ := h
  obtain ⟨reports', recorded', hP', hQ', hdoes'⟩ := h'
  refine ⟨reports ++ reports', recorded ++ recorded', ?_, ?_, fun env hv world =>
    (hdoes env hv world).bind (hdoes' env hv world)⟩
  · exact List.forall_mem_append.mpr ⟨hP, hP'⟩
  · exact List.forall_mem_append.mpr ⟨hQ, hQ'⟩

/-- What is read depends on the view alone. -/
theorem read_bind {t : Task W S α} {f : α → Task W S Unit} {a : α}
    (ht : ∀ env, env.view = v → ∀ world, t.Does env world a world [] [])
    (h : (f a).Tells v P Q) : (t >>= f).Tells v P Q := by
  obtain ⟨reports, recorded, hP, hQ, hdoes⟩ := h
  exact ⟨reports, recorded, hP, hQ, fun env hv world =>
    (ht env hv world).read_bind (hdoes env hv world)⟩

theorem view_bind {f : View → Task W S Unit} (h : (f v).Tells v P Q) :
    (Task.view >>= f).Tells v P Q := by
  refine read_bind (fun env hv world => ?_) h
  exact (Does.env_ env world).read_bind (hv ▸ Does.pure _ env world)

theorem tree_bind {f : Tree → Task W S Unit} (h : (f v.tree).Tells v P Q) :
    (Task.tree >>= f).Tells v P Q := by
  refine read_bind (fun env hv world => ?_) h
  exact hv ▸ Does.tree_ env world

theorem finding_bind {issue : Issue} {node : NodeId} {message : String}
    {f : Finding → Task W S Unit} (h : (f (findingAt v issue node message)).Tells v P Q) :
    (Task.finding issue node message >>= f).Tells v P Q := by
  refine read_bind (fun env hv world => ?_) h
  exact hv ▸ Does.finding issue node message env world

theorem report {f : Finding} (h : P f) : (Task.report f : Task W S Unit).Tells v P Q :=
  ⟨[f], [], by simpa using h, by simp, fun env _ world => Does.report f env world⟩

theorem reportAt {issue : Issue} {node : NodeId} {message : String}
    (h : P (findingAt v issue node message)) :
    (Task.reportAt issue node message : Task W S Unit).Tells v P Q :=
  finding_bind (report h)

theorem recordFact {key : String} (h : Q key) (value : DataValue) :
    (Task.recordFact key value : Task W S Unit).Tells v P Q :=
  ⟨[], [(key, value)], by simp, by simpa using h, fun env _ world =>
    Does.recordFact key value env world⟩

theorem forM {l : List α} {f : α → Task W S Unit} (h : ∀ x ∈ l, (f x).Tells v P Q) :
    (l.forM f).Tells v P Q := by
  induction l with
  | nil => exact pure
  | cons x l ih =>
      obtain ⟨hx, hl⟩ := List.forall_mem_cons.mp h
      exact seq hx (ih hl)

end Tells

end Task

end LintEngine
