import LintEngine.Proofs.Engine.Courses
import LintEngine.Versions.Central

/-!
Lookups by one client, one after the other.

What a lookup sends is seen by a network that records it; the record changes
nothing else. A single lookup answers from memory, or gives up because nobody is
there, or asks with two requests at most, and in the last case it remembers what
came of it, unless the run is cancelled. What whole histories of lookups keep to
follows by induction: the same question has the same answer and is asked once,
and nothing is sent after a failure to reach anybody or a request to cancel.
-/

namespace LintEngine.Versions.Central

variable {W : Type} {α β : Type}

/-! ### Versions -/

/-- A version chosen where no previews are allowed is none. -/
theorem not_isPreview_of_choose {versions : List String} {v : String}
    (h : (choose false versions).1 = some v) : isPreview v = false := by
  induction versions with
  | nil => cases h
  | cons x rest ih =>
      unfold choose at h
      cases hx : isPreview x with
      | true =>
          rw [hx] at h
          cases rest with
          | nil => cases h
          | cons y rest => exact ih h
      | false =>
          rw [hx] at h
          cases h
          exact hx

/-! ### What is sent -/

structure Exchange where
  search : Search
  reply : Reply
  /-- Whether the run had been cancelled when the request was sent. -/
  cancelled : Bool

def recording (net : Transport W) : Transport (W × List Exchange) := fun s w =>
  let (reply, world) := net s ⟨w.cancelled, w.host.1⟩
  (reply, ⟨world.cancelled, world.host, w.host.2 ++ [⟨s, reply, w.cancelled⟩]⟩)

/-- In a network, `t` returns `r` and turns a client and a world into others, and
what it sends meanwhile is `sent`. -/
structure Takes (net : Transport W) (t : (V : Type) → Transport V → Call V α) (c : Client)
    (w : World W) (r : Except LintError α) (sent : List Exchange) (c' : Client) (w' : World W) :
    Prop where
  run : (t W net).run.run (c, w) = (r, c', w')
  recorded : ∀ log, (t _ (recording net)).run.run (c, ⟨w.cancelled, w.host, log⟩) =
    (r, c', ⟨w'.cancelled, w'.host, log ++ sent⟩)

section

variable {σ : Type} {t : ExceptT LintError (StateM σ) α} {f : α → ExceptT LintError (StateM σ) β}
  {handler : LintError → ExceptT LintError (StateM σ) α} {s s' : σ} {a : α} {e : LintError}

theorem run_bind_ok (h : t.run.run s = (.ok a, s')) : (t >>= f).run.run s = (f a).run.run s' := by
  rw [ExceptT.run_bind, StateT.run_bind, h]
  rfl

theorem run_bind_error (h : t.run.run s = (.error e, s')) :
    (t >>= f).run.run s = (.error e, s') := by
  rw [ExceptT.run_bind, StateT.run_bind, h]
  rfl

theorem run_tryCatch_ok (h : t.run.run s = (.ok a, s')) :
    (tryCatch t handler).run.run s = (.ok a, s') := by
  rw [ExceptT.run_tryCatch, StateT.run_bind, h]
  rfl

theorem run_tryCatch_error (h : t.run.run s = (.error e, s')) :
    (tryCatch t handler).run.run s = (handler e).run.run s' := by
  rw [ExceptT.run_tryCatch, StateT.run_bind, h]
  rfl

end

/-! ### The parts of a lookup, as functions -/

def valueOf : Except LintError (Option String) → Option String
  | .ok answer => answer
  | .error _ => none

/-- The client after asking. That the run was cancelled is not remembered. -/
def Client.noted (c : Client) (key : Key) : Except LintError (Option String) → Client
  | .error .cancelled => c
  | r => { c with answers := (key, valueOf r) :: c.answers }

theorem Client.noted_of_ne {r : Except LintError (Option String)} (h : r ≠ .error .cancelled)
    (c : Client) (key : Key) :
    c.noted key r = { c with answers := (key, valueOf r) :: c.answers } := by
  rw [noted]
  exact h

section

variable (net : Transport W) (c : Client) (w : World W)

theorem run_get : (get : Call W (Client × World W)).run.run (c, w) = (.ok (c, w), c, w) := rfl

theorem run_search (s : Search) :
    (search net s).run.run (c, w) =
      if w.cancelled then (.error .cancelled, c, w)
      else
        ((net s w).1.versions s,
          { c with
            requests := c.requests + 1
            unreachable := c.unreachable || (net s w).1.isSilence }, (net s w).2) := by
  rw [search, run_bind_ok (run_get c w)]
  dsimp only
  by_cases hcancelled : w.cancelled = true
  · rw [if_pos hcancelled, if_pos hcancelled]
    rfl
  · rw [if_neg hcancelled, if_neg hcancelled]
    rcases net s w with ⟨reply, w'⟩
    dsimp only
    cases reply.versions s <;> rfl

theorem run_latest (group artifact : String) (allowPreview : Bool) :
    (latest net group artifact allowPreview).run.run (c, w) =
      match c.answers.lookup (group, artifact, allowPreview) with
      | some answer => (.ok answer, c, w)
      | none =>
        if c.unreachable then (.ok none, c, w)
        else
          let (r, c', w') := (ask net group artifact allowPreview).run.run (c, w)
          (r, c'.noted (group, artifact, allowPreview) r, w') := by
  rw [latest, run_bind_ok (run_get c w)]
  dsimp only
  cases c.answers.lookup (group, artifact, allowPreview) with
  | some answer => rfl
  | none =>
      dsimp only
      by_cases hreach : c.unreachable = true
      · rw [if_pos hreach, if_pos hreach]
        rfl
      · rw [if_neg hreach, if_neg hreach]
        rcases hask : (ask net group artifact allowPreview).run.run (c, w) with ⟨r, c', w'⟩
        cases r with
        | ok answer =>
            rw [run_bind_ok (run_tryCatch_ok ((run_bind_ok hask).trans rfl))]
            rfl
        | error e =>
            cases e with
            | _ => rw [run_bind_error ((run_tryCatch_error (run_bind_error hask)).trans rfl)]; rfl

end

/-! ### What a part of a lookup sends -/

namespace Takes

variable {net : Transport W} {c c' c'' : Client} {w w' w'' : World W} {sent sent' : List Exchange}
  {t : (V : Type) → Transport V → Call V α} {f : (V : Type) → Transport V → α → Call V β}

theorem pure (a : α) : Takes net (fun _ _ => pure a) c w (.ok a) [] c w :=
  ⟨rfl, fun log => by rw [List.append_nil]; rfl⟩

theorem bind_ok {a : α} {r : Except LintError β} (h : Takes net t c w (.ok a) sent c' w')
    (h' : Takes net (fun V net => f V net a) c' w' r sent' c'' w'') :
    Takes net (fun V net => t V net >>= f V net) c w r (sent ++ sent') c'' w'' := by
  refine ⟨(run_bind_ok h.run).trans h'.run, fun log => ?_⟩
  rw [run_bind_ok (h.recorded log), h'.recorded, List.append_assoc]

theorem bind_error {e : LintError} (h : Takes net t c w (.error e) sent c' w') :
    Takes net (fun V net => t V net >>= f V net) c w (.error e) sent c' w' :=
  ⟨run_bind_error h.run, fun log => run_bind_error (h.recorded log)⟩

theorem unique {r r' : Except LintError α} (h : Takes net t c w r sent c' w')
    (h' : Takes net t c w r' sent' c'' w'') : r = r' ∧ sent = sent' ∧ c' = c'' ∧ w' = w'' := by
  cases h.run.symm.trans h'.run
  exact ⟨rfl, congrArg (·.2.2.host.2) ((h.recorded []).symm.trans (h'.recorded [])), rfl, rfl⟩

end Takes

/-- What sending requests changes and what it does not; `n` is the most that are
sent. -/
structure Sends (n : Nat) (c : Client) (w : World W) (sent : List Exchange) (c' : Client)
    (w' : World W) : Prop where
  answers : c'.answers = c.answers
  requests : c'.requests = c.requests + sent.length
  unreachable : c'.unreachable = (c.unreachable || sent.any (·.reply.isSilence))
  length_le : sent.length ≤ n
  later : w.Later w'
  uncancelled : ∀ x ∈ sent, x.cancelled = false
  idle : w.cancelled = true → sent = []

namespace Sends

variable {m n : Nat} {c c' c'' : Client} {w w' w'' : World W} {sent sent' : List Exchange}

theorem none (n : Nat) (c : Client) (w : World W) : Sends n c w [] c w where
  answers := rfl
  requests := rfl
  unreachable := (Bool.or_false _).symm
  length_le := Nat.zero_le n
  later := .refl w
  uncancelled := by simp
  idle _ := rfl

theorem mono (h : Sends m c w sent c' w') (hmn : m ≤ n) : Sends n c w sent c' w' :=
  { h with length_le := Nat.le_trans h.length_le hmn }

theorem trans (h : Sends m c w sent c' w') (h' : Sends n c' w' sent' c'' w'') :
    Sends (m + n) c w (sent ++ sent') c'' w'' where
  answers := h'.answers.trans h.answers
  requests := by rw [h'.requests, h.requests, List.length_append, Nat.add_assoc]
  unreachable := by rw [h'.unreachable, h.unreachable, List.any_append, Bool.or_assoc]
  length_le := by
    rw [List.length_append]
    exact Nat.add_le_add h.length_le h'.length_le
  later := h.later.trans h'.later
  uncancelled := List.forall_mem_append.mpr ⟨h.uncancelled, h'.uncancelled⟩
  idle hw := by rw [h.idle hw, h'.idle (h.later hw), List.append_nil]

end Sends

/-- A reply is never taken for a request to cancel. -/
theorem versions_ne_cancelled (s : Search) (reply : Reply) :
    reply.versions s ≠ .error .cancelled := by
  cases reply with
  | answered status body =>
      rw [Reply.versions]
      split
      · nofun
      · split <;> nofun
  | _ => nofun

def KeepsRequests (net : Transport W) : Prop := ∀ s (w : World W), w.Later (net s w).2

section

variable {net : Transport W} (hnet : KeepsRequests net) (c : Client) (w : World W)

include hnet

theorem exists_search (s : Search) :
    ∃ r sent c' w', Takes net (fun _ net => search net s) c w r sent c' w' ∧
      Sends 1 c w sent c' w' ∧ (r = .error .cancelled → w'.cancelled = true) := by
  cases hw : w.cancelled with
  | true =>
      refine ⟨.error .cancelled, [], c, w, ⟨?_, fun log => ?_⟩, .none 1 c w, fun _ => hw⟩
      · rw [run_search, hw]
        rfl
      · rw [run_search, hw, List.append_nil]
        rfl
  | false =>
      have htakes : Takes net (fun _ net => search net s) c w ((net s w).1.versions s)
          [⟨s, (net s w).1, false⟩]
          { c with
            requests := c.requests + 1
            unreachable := c.unreachable || (net s w).1.isSilence } (net s w).2 := by
        refine ⟨?_, fun log => ?_⟩
        · rw [run_search, hw]
          rfl
        · rw [run_search, ← hw]
          exact if_neg (by rw [hw]; exact Bool.false_ne_true)
      have hsends : Sends 1 c w [⟨s, (net s w).1, false⟩]
          { c with
            requests := c.requests + 1
            unreachable := c.unreachable || (net s w).1.isSilence } (net s w).2 :=
        { answers := rfl
          requests := rfl
          unreachable := by simp
          length_le := Nat.le_refl 1
          later := hnet s w
          uncancelled := List.forall_mem_singleton.mpr rfl
          idle := fun h => absurd (hw.symm.trans h) Bool.false_ne_true }
      exact ⟨_, _, _, _, htakes, hsends, fun h => absurd h (versions_ne_cancelled s _)⟩

theorem exists_ask (group artifact : String) (allowPreview : Bool) :
    ∃ r sent c' w', Takes net (fun _ net => ask net group artifact allowPreview) c w r sent c' w' ∧
      Sends 2 c w sent c' w' ∧ (r = .error .cancelled → w'.cancelled = true) ∧
      (allowPreview = false → ∀ v, r = .ok (some v) → isPreview v = false) := by
  obtain ⟨newest, sent, c₁, w₁, htakes, hsends, hcancelled⟩ :=
    exists_search hnet c w ⟨group, artifact, true⟩
  cases newest with
  | error e =>
      refine ⟨.error e, sent, c₁, w₁, htakes.bind_error, hsends.mono (by decide), ?_, nofun⟩
      rintro ⟨⟩
      exact hcancelled rfl
  | ok newest =>
      rcases hchoose : choose allowPreview newest with ⟨_ | v, preview⟩
      · cases hall : preview && !allowPreview with
        | false =>
            refine ⟨.ok none, sent ++ [], c₁, w₁, htakes.bind_ok ?_,
              hsends.trans (.none 1 c₁ w₁), nofun, nofun⟩
            rw [hchoose]
            cases preview with
            | false => exact .pure none
            | true =>
                obtain rfl : allowPreview = true := by simpa using hall
                exact .pure none
        | true =>
            obtain ⟨rfl, rfl⟩ : preview = true ∧ allowPreview = false := by simpa using hall
            obtain ⟨all, sent', c₂, w₂, htakes', hsends', hcancelled'⟩ :=
              exists_search hnet c₁ w₁ ⟨group, artifact, false⟩
            cases all with
            | error e =>
                refine ⟨.error e, sent ++ sent', c₂, w₂, htakes.bind_ok ?_, hsends.trans hsends',
                  ?_, nofun⟩
                · rw [hchoose]
                  exact htakes'.bind_error
                · rintro ⟨⟩
                  exact hcancelled' rfl
            | ok all =>
                refine ⟨.ok (choose false all).1, sent ++ (sent' ++ []), c₂, w₂, htakes.bind_ok ?_,
                  hsends.trans (hsends'.trans (.none 0 c₂ w₂)), nofun, ?_⟩
                · rw [hchoose]
                  exact htakes'.bind_ok (.pure _)
                · intro _ v hv
                  exact not_isPreview_of_choose (Except.ok.inj hv)
      · refine ⟨.ok (some v), sent ++ [], c₁, w₁, htakes.bind_ok ?_,
          hsends.trans (.none 1 c₁ w₁), nofun, ?_⟩
        · rw [hchoose]
          exact .pure (some v)
        · rintro rfl _ ⟨⟩
          exact not_isPreview_of_choose (congrArg Prod.fst hchoose)

end

/-! ### A lookup -/

inductive Responds (c : Client) (w : World W) (key : Key) :
    Except LintError (Option String) → List Exchange → Client → World W → Prop
  /-- The answer is known. -/
  | recalled {answer} (known : c.answers.lookup key = some answer) :
      Responds c w key (.ok answer) [] c w
  /-- Nobody is there to ask. -/
  | gaveUp (unknown : c.answers.lookup key = none) (unreachable : c.unreachable = true) :
      Responds c w key (.ok none) [] c w
  | cancelled {sent c' w'} (unknown : c.answers.lookup key = none)
      (reachable : c.unreachable = false) (sends : Sends 2 c w sent c' w')
      (cancelled : w'.cancelled = true) : Responds c w key (.error .cancelled) sent c' w'
  /-- What came of asking is remembered. -/
  | learned {r sent c' w'} (unknown : c.answers.lookup key = none)
      (reachable : c.unreachable = false) (sends : Sends 2 c w sent c' w')
      (outcome : r ≠ .error .cancelled)
      (stable : key.2.2 = false → ∀ v, r = .ok (some v) → isPreview v = false) :
      Responds c w key r sent { c' with answers := (key, valueOf r) :: c'.answers } w'

theorem exists_latest {net : Transport W} (hnet : KeepsRequests net) (c : Client) (w : World W)
    (key : Key) :
    ∃ r sent c' w',
      Takes net (fun _ net => latest net key.1 key.2.1 key.2.2) c w r sent c' w' ∧
        Responds c w key r sent c' w' := by
  obtain ⟨group, artifact, allowPreview⟩ := key
  cases hknown : c.answers.lookup (group, artifact, allowPreview) with
  | some answer =>
      refine ⟨.ok answer, [], c, w, ⟨?_, fun log => ?_⟩, .recalled hknown⟩
      · rw [run_latest, hknown]
      · rw [run_latest, hknown, List.append_nil]
  | none =>
      cases hreach : c.unreachable with
      | true =>
          refine ⟨.ok none, [], c, w, ⟨?_, fun log => ?_⟩, .gaveUp hknown hreach⟩
          · rw [run_latest, hknown, hreach]
            rfl
          · rw [run_latest, hknown, hreach, List.append_nil]
            rfl
      | false =>
          obtain ⟨r, sent, c', w', htakes, hsends, hcancelled, hstable⟩ :=
            exists_ask hnet c w group artifact allowPreview
          have htakes : Takes net (fun _ net => latest net group artifact allowPreview) c w r sent
              (c'.noted (group, artifact, allowPreview) r) w' := by
            refine ⟨?_, fun log => ?_⟩
            · rw [run_latest, hknown, hreach, htakes.run]
              rfl
            · rw [run_latest, hknown, hreach, htakes.recorded]
              rfl
          refine ⟨_, _, _, _, htakes, ?_⟩
          by_cases hr : r = .error .cancelled
          · subst hr
            exact .cancelled hknown hreach hsends (hcancelled rfl)
          · rw [Client.noted_of_ne hr]
            exact .learned hknown hreach hsends hr hstable

end LintEngine.Versions.Central
