import LintEngine.Proofs.Versions.Central
import Mathlib.Data.List.Dedup
import Mathlib.Data.List.Perm.Subperm

/-!
Whole histories of lookups by one client.

Between two lookups anything can happen to the world, but a request to cancel is
never taken back. What the client knows at the end of a history is tied to the
lookups that it has made; each further lookup keeps this up and fits what was
said before.
-/

namespace LintEngine.Versions.Central

variable {W : Type}

structure Inquiry where
  key : Key
  outcome : Except LintError (Option String)
  /-- What was sent meanwhile. -/
  sent : List Exchange
  /-- Whether the run had been cancelled before. -/
  cancelled : Bool
  before : Client
  after : Client

/-- The lookups that a new client has made so far, with the client and the world
as they are now. -/
inductive History (net : Transport W) : List Inquiry → Client → World W → Prop
  | new (w : World W) : History net [] {} w
  | meanwhile {inquiries c w w'} (h : History net inquiries c w) (later : w.Later w') :
      History net inquiries c w'
  | asked {inquiries c w r sent c' w'} (h : History net inquiries c w) (key : Key)
      (takes : Takes net (fun _ net => latest net key.1 key.2.1 key.2.2) c w r sent c' w') :
      History net (inquiries ++ [⟨key, r, sent, w.cancelled, c, c'⟩]) c' w'

/-- An inquiry that got no reply because nobody answers. -/
def Inquiry.IsMute (x : Inquiry) : Prop := ∃ e ∈ x.sent, e.reply.isSilence = true

/-- What is said once is said again, without asking, and a failure to reach
anybody is the last request. -/
structure Inquiry.Precedes (x y : Inquiry) : Prop where
  repeated : x.key = y.key → x.outcome ≠ .error .cancelled →
    y.outcome = .ok (valueOf x.outcome) ∧ y.sent = []
  once : x.key = y.key → x.sent ≠ [] → y.sent = []
  mute : x.IsMute → y.sent = []

structure Inquiry.IsProper (x : Inquiry) : Prop where
  stable : x.key.2.2 = false → ∀ v, x.outcome = .ok (some v) → isPreview v = false
  length_le : x.sent.length ≤ 2
  idle : x.cancelled = true → x.sent = []
  uncancelled : ∀ e ∈ x.sent, e.cancelled = false
  uncached : x.outcome = .error .cancelled → x.after.answers = x.before.answers

/-! ### One more lookup -/

namespace Responds

variable {c c' : Client} {w w' : World W} {key : Key} {r : Except LintError (Option String)}
  {sent : List Exchange} (h : Responds c w key r sent c' w')

include h

theorem of_known {answer : Option String} (known : c.answers.lookup key = some answer) :
    r = .ok answer ∧ sent = [] := by
  cases h with
  | recalled known' =>
      cases known.symm.trans known'
      exact ⟨rfl, rfl⟩
  | gaveUp unknown | cancelled unknown | learned unknown => cases known.symm.trans unknown

theorem of_unreachable (unreachable : c.unreachable = true) :
    sent = [] ∧ c' = c ∧ (c.answers.lookup key = none → r = .ok none) := by
  cases h with
  | recalled known => exact ⟨rfl, rfl, fun unknown => by cases known.symm.trans unknown⟩
  | gaveUp => exact ⟨rfl, rfl, fun _ => rfl⟩
  | cancelled _ reachable | learned _ reachable => cases unreachable.symm.trans reachable

theorem later : w.Later w' := by
  cases h with
  | recalled | gaveUp => exact .refl w
  | cancelled _ _ sends | learned _ _ sends => exact sends.later

theorem requests : c'.requests = c.requests + sent.length := by
  cases h with
  | recalled | gaveUp => rfl
  | cancelled _ _ sends | learned _ _ sends => exact sends.requests

theorem unreachable : c'.unreachable = (c.unreachable || sent.any (·.reply.isSilence)) := by
  cases h with
  | recalled | gaveUp => exact (Bool.or_false _).symm
  | cancelled _ _ sends | learned _ _ sends => exact sends.unreachable

theorem lookup_of_some {k : Key} {answer : Option String}
    (known : c.answers.lookup k = some answer) : c'.answers.lookup k = some answer := by
  cases h with
  | recalled | gaveUp => exact known
  | cancelled _ _ sends => rwa [sends.answers]
  | learned unknown _ sends =>
      have hk : k ≠ key := by
        rintro rfl
        cases known.symm.trans unknown
      rwa [List.lookup_cons, beq_false_of_ne hk, sends.answers]

/-- The client knows an outcome from then on, or it will give up each time. -/
theorem recalls (hr : r ≠ .error .cancelled) :
    c'.answers.lookup key = some (valueOf r) ∨
      c'.answers.lookup key = none ∧ c'.unreachable = true ∧ valueOf r = none := by
  cases h with
  | recalled known => exact .inl known
  | gaveUp unknown unreachable => exact .inr ⟨unknown, unreachable, rfl⟩
  | cancelled => exact absurd rfl hr
  | learned =>
      rw [List.lookup_cons, beq_self_eq_true]
      exact .inl rfl

/-- After a request, the outcome is known or the run is cancelled. -/
theorem spent (hsent : sent ≠ []) :
    (c'.answers.lookup key).isSome = true ∨ w'.cancelled = true := by
  cases h with
  | recalled | gaveUp => exact absurd rfl hsent
  | cancelled _ _ _ cancelled => exact .inr cancelled
  | learned =>
      rw [List.lookup_cons, beq_self_eq_true]
      exact .inl rfl

/-- A client that knows no preview where none is allowed does not learn one. -/
theorem stable
    (hc : ∀ k v, k.2.2 = false → c.answers.lookup k = some (some v) → isPreview v = false) :
    ∀ k v, k.2.2 = false → c'.answers.lookup k = some (some v) → isPreview v = false := by
  cases h with
  | recalled | gaveUp => exact hc
  | cancelled _ _ sends => rwa [sends.answers]
  | learned _ _ sends _ stable =>
      intro k v hk hv
      rw [List.lookup_cons, sends.answers] at hv
      split at hv
      · rename_i hkey
        rw [beq_iff_eq] at hkey
        subst hkey
        cases r with
        | error e => cases hv
        | ok answer => exact stable hk v (congrArg Except.ok (Option.some.inj hv))
      · exact hc k v hk hv

theorem isProper
    (hc : ∀ k v, k.2.2 = false → c.answers.lookup k = some (some v) → isPreview v = false) :
    Inquiry.IsProper ⟨key, r, sent, w.cancelled, c, c'⟩ := by
  cases h with
  | recalled known =>
      refine ⟨fun hk v hv => hc key v hk ?_, Nat.zero_le 2, fun _ => rfl, by simp, nofun⟩
      rw [known, Except.ok.inj hv]
  | gaveUp => exact ⟨nofun, Nat.zero_le 2, fun _ => rfl, by simp, nofun⟩
  | cancelled _ _ sends =>
      exact ⟨nofun, sends.length_le, sends.idle, sends.uncancelled, fun _ => sends.answers⟩
  | learned _ _ sends outcome stable =>
      exact ⟨stable, sends.length_le, sends.idle, sends.uncancelled, fun h => absurd h outcome⟩

end Responds

/-! ### What a client knows -/

structure Remembers (inquiries : List Inquiry) (c : Client) (w : World W) : Prop where
  recalls : ∀ x ∈ inquiries, x.outcome ≠ .error .cancelled →
    c.answers.lookup x.key = some (valueOf x.outcome) ∨
      c.answers.lookup x.key = none ∧ c.unreachable = true ∧ valueOf x.outcome = none
  mute : ∀ x ∈ inquiries, x.IsMute → c.unreachable = true
  spent : ∀ x ∈ inquiries, x.sent ≠ [] →
    (c.answers.lookup x.key).isSome = true ∨ w.cancelled = true
  stable : ∀ k v, k.2.2 = false → c.answers.lookup k = some (some v) → isPreview v = false
  requests : c.requests = (inquiries.flatMap Inquiry.sent).length

namespace Remembers

variable {inquiries : List Inquiry} {c c' : Client} {w w' : World W} {key : Key}
  {r : Except LintError (Option String)} {sent : List Exchange}

theorem meanwhile (h : Remembers inquiries c w) (later : w.Later w') : Remembers inquiries c w' :=
  { h with spent := fun x hx hsent => (h.spent x hx hsent).imp_right later }

theorem precedes (h : Remembers inquiries c w) (hresponds : Responds c w key r sent c' w') :
    ∀ x ∈ inquiries, x.Precedes ⟨key, r, sent, w.cancelled, c, c'⟩ := by
  intro x hx
  refine ⟨?_, ?_, fun hmute => (hresponds.of_unreachable (h.mute x hx hmute)).1⟩
  · rintro rfl houtcome
    rcases h.recalls x hx houtcome with known | ⟨unknown, unreachable, hnone⟩
    · exact hresponds.of_known known
    · obtain ⟨hsent, -, hr⟩ := hresponds.of_unreachable unreachable
      exact ⟨(hr unknown).trans (congrArg Except.ok hnone.symm), hsent⟩
  · rintro rfl hsent
    rcases h.spent x hx hsent with known | cancelled
    · obtain ⟨answer, known⟩ := Option.isSome_iff_exists.mp known
      exact (hresponds.of_known known).2
    · exact (hresponds.isProper h.stable).idle cancelled

theorem asked (h : Remembers inquiries c w) (hresponds : Responds c w key r sent c' w') :
    Remembers (inquiries ++ [⟨key, r, sent, w.cancelled, c, c'⟩]) c' w' where
  recalls := by
    refine List.forall_mem_append.mpr ⟨fun x hx hx' => ?_, List.forall_mem_singleton.mpr ?_⟩
    · rcases h.recalls x hx hx' with known | ⟨unknown, unreachable, hnone⟩
      · exact .inl (hresponds.lookup_of_some known)
      · rw [(hresponds.of_unreachable unreachable).2.1]
        exact .inr ⟨unknown, unreachable, hnone⟩
    · exact hresponds.recalls
  mute := by
    refine List.forall_mem_append.mpr ⟨fun x hx hx' => ?_, List.forall_mem_singleton.mpr ?_⟩
    · rw [hresponds.unreachable, h.mute x hx hx', Bool.true_or]
    · intro hmute
      rw [hresponds.unreachable, List.any_eq_true.mpr hmute, Bool.or_true]
  spent := by
    refine List.forall_mem_append.mpr ⟨fun x hx hx' => ?_, List.forall_mem_singleton.mpr ?_⟩
    · refine (h.spent x hx hx').imp (fun known => ?_) fun cancelled => hresponds.later cancelled
      obtain ⟨answer, known⟩ := Option.isSome_iff_exists.mp known
      rw [hresponds.lookup_of_some known]
      rfl
    · exact hresponds.spent
  stable := hresponds.stable h.stable
  requests := by
    rw [hresponds.requests, h.requests, List.flatMap_append, List.flatMap_singleton,
      List.length_append]

end Remembers

/-! ### Histories -/

section

variable {net : Transport W} (hnet : KeepsRequests net) {inquiries : List Inquiry} {c : Client}
  {w : World W}

include hnet

/-- A lookup ends in one of the ways, and in no other. -/
theorem responds_of_takes {key : Key} {r : Except LintError (Option String)}
    {sent : List Exchange} {c' : Client} {w' : World W}
    (takes : Takes net (fun _ net => latest net key.1 key.2.1 key.2.2) c w r sent c' w') :
    Responds c w key r sent c' w' := by
  obtain ⟨r₁, sent₁, c₁, w₁, htakes, hresponds⟩ := exists_latest hnet c w key
  obtain ⟨rfl, rfl, rfl, rfl⟩ := takes.unique htakes
  exact hresponds

theorem History.remembers (h : History net inquiries c w) : Remembers inquiries c w := by
  induction h with
  | new w => exact ⟨by simp, by simp, by simp, nofun, rfl⟩
  | meanwhile _ later ih => exact ih.meanwhile later
  | asked _ key takes ih => exact ih.asked (responds_of_takes hnet takes)

theorem History.isProper (h : History net inquiries c w) : ∀ x ∈ inquiries, x.IsProper := by
  induction h with
  | new w => simp
  | meanwhile _ _ ih => exact ih
  | asked h key takes ih =>
      refine List.forall_mem_append.mpr ⟨ih, List.forall_mem_singleton.mpr ?_⟩
      exact (responds_of_takes hnet takes).isProper (h.remembers hnet).stable

theorem History.pairwise (h : History net inquiries c w) :
    inquiries.Pairwise Inquiry.Precedes := by
  induction h with
  | new w => exact .nil
  | meanwhile _ _ ih => exact ih
  | asked h key takes ih =>
      refine List.pairwise_append.mpr ⟨ih, List.pairwise_singleton .., fun x hx y hy => ?_⟩
      rw [List.mem_singleton.mp hy]
      exact (h.remembers hnet).precedes (responds_of_takes hnet takes) x hx

end

def Inquiry.isBusy (x : Inquiry) : Bool := !x.sent.isEmpty

theorem length_sent_le_busy {inquiries : List Inquiry} (hproper : ∀ x ∈ inquiries, x.IsProper) :
    (inquiries.flatMap Inquiry.sent).length ≤ 2 * (inquiries.filter Inquiry.isBusy).length := by
  induction inquiries with
  | nil => exact Nat.zero_le _
  | cons x inquiries ih =>
      obtain ⟨hx, hrest⟩ := List.forall_mem_cons.mp hproper
      have ih := ih hrest
      have hlength := hx.length_le
      rw [List.flatMap_cons, List.length_append, List.filter_cons]
      cases hbusy : x.isBusy with
      | false =>
          have hsent : x.sent = [] := by simpa [Inquiry.isBusy] using hbusy
          simpa [hsent] using ih
      | true =>
          rw [if_pos rfl, List.length_cons]
          omega

/-- Inquiries that ask for each key once send two requests for each at most. -/
theorem length_sent_le {inquiries : List Inquiry} (hproper : ∀ x ∈ inquiries, x.IsProper)
    (hpairwise : inquiries.Pairwise Inquiry.Precedes) :
    (inquiries.flatMap Inquiry.sent).length ≤ 2 * (inquiries.map Inquiry.key).dedup.length := by
  -- the inquiries that send anything have different keys
  let busy := inquiries.filter Inquiry.isBusy
  have hnodup : (busy.map Inquiry.key).Nodup := by
    refine List.pairwise_map.mpr (List.pairwise_filter.mpr (hpairwise.imp ?_))
    intro x y hxy hx hy hkey
    have hsent : y.sent = [] := hxy.once hkey (by simpa [Inquiry.isBusy] using hx)
    rw [Inquiry.isBusy, hsent] at hy
    cases hy
  have hsubset : busy.map Inquiry.key ⊆ (inquiries.map Inquiry.key).dedup := by
    intro key hkey
    obtain ⟨x, hx, rfl⟩ := List.mem_map.mp hkey
    exact List.mem_dedup.mpr (List.mem_map_of_mem (List.mem_filter.mp hx).1)
  calc (inquiries.flatMap Inquiry.sent).length
      ≤ 2 * busy.length := length_sent_le_busy hproper
    _ = 2 * (busy.map Inquiry.key).length := by rw [List.length_map]
    _ ≤ 2 * (inquiries.map Inquiry.key).dedup.length :=
        Nat.mul_le_mul_left 2 (hnodup.subperm hsubset).length_le

structure IsFrugal (inquiries : List Inquiry) (c : Client) : Prop where
  proper : ∀ x ∈ inquiries, x.IsProper
  pairwise : inquiries.Pairwise Inquiry.Precedes
  /-- The client counts what is sent. -/
  requests : c.requests = (inquiries.flatMap Inquiry.sent).length
  requests_le : c.requests ≤ 2 * (inquiries.map Inquiry.key).dedup.length

/-- The lookups that a client has made are frugal, whatever the network does, and
it can make any other. -/
theorem histories_are_frugal {net : Transport W} (hnet : KeepsRequests net)
    {inquiries : List Inquiry} {c : Client} {w : World W} (h : History net inquiries c w) :
    IsFrugal inquiries c ∧
      ∀ key, ∃ x c' w', x.key = key ∧ History net (inquiries ++ [x]) c' w' := by
  refine ⟨?_, fun key => ?_⟩
  · have hproper := h.isProper hnet
    have hpairwise := h.pairwise hnet
    have hrequests := (h.remembers hnet).requests
    exact ⟨hproper, hpairwise, hrequests, hrequests ▸ length_sent_le hproper hpairwise⟩
  · obtain ⟨r, sent, c', w', htakes, -⟩ := exists_latest hnet c w key
    exact ⟨_, c', w', rfl, h.asked key htakes⟩

/-! ### A history with every kind of answer -/

def inquire (net : Transport W) (key : Key) (c : Client) (w : World W) :
    Inquiry × Client × World W :=
  let (r, c', w') := (latest (recording net) key.1 key.2.1 key.2.2).run.run
    (c, ⟨w.cancelled, w.host, []⟩)
  (⟨key, r, w'.host.2, w.cancelled, c, c'⟩, c', ⟨w'.cancelled, w'.host.1⟩)

def inquireAll (net : Transport W) : List Key → Client → World W → List Inquiry × Client
  | [], c, _ => ([], c)
  | key :: keys, c, w =>
    let (x, c', w') := inquire net key c w
    let (rest, c'') := inquireAll net keys c' w'
    (x :: rest, c'')

theorem History.inquireAll {net : Transport W} (hnet : KeepsRequests net)
    {inquiries : List Inquiry} {c : Client} {w : World W} (h : History net inquiries c w)
    (keys : List Key) :
    ∃ w', History net (inquiries ++ (inquireAll net keys c w).1)
      (inquireAll net keys c w).2 w' := by
  induction keys generalizing inquiries c w with
  | nil =>
      rw [Central.inquireAll, List.append_nil]
      exact ⟨w, h⟩
  | cons key keys ih =>
      obtain ⟨r, sent, c', w', htakes, -⟩ := exists_latest hnet c w key
      have hinquire : inquire net key c w = (⟨key, r, sent, w.cancelled, c, c'⟩, c', w') := by
        rw [inquire, htakes.recorded []]
        rfl
      obtain ⟨w'', hrest⟩ := ih (h.asked key htakes)
      refine ⟨w'', ?_⟩
      rw [Central.inquireAll, hinquire]
      rwa [List.append_assoc] at hrest

def bodyOf (versions : List String) : String :=
  "\x7b\"response\":\x7b\"docs\":[" ++
    Text.join "," (versions.map fun v => "\x7b\"v\":\"" ++ v ++ "\"\x7d") ++ "]\x7d\x7d"

def fading : Transport Nat := fun _ w =>
  (match w.host with
    | 0 => .answered 200 (bodyOf ["2.0-beta"])
    | 1 => .answered 200 (bodyOf ["2.0-beta", "1.0"])
    | _ => .timedOut, { w with host := w.host + 1 })

def fadingKeys : List Key :=
  [("g", "a", false), ("g", "a", false), ("g", "b", true), ("g", "c", true)]

/-- A preview is not taken, so all versions are asked for; the answer is known
then. The next library is asked for in vain, and the one after it not at all. -/
theorem fading_isFrugal :
    IsFrugal (inquireAll fading fadingKeys {} { host := 0 }).1
        (inquireAll fading fadingKeys {} { host := 0 }).2 ∧
      (inquireAll fading fadingKeys {} { host := 0 }).1.map
          (fun x => (valueOf x.outcome, x.sent.length)) =
        [(some "1.0", 2), (some "1.0", 0), (none, 1), (none, 0)] := by
  have hnet : KeepsRequests fading := fun _ _ => id
  obtain ⟨w', h⟩ := (History.new { host := 0 }).inquireAll hnet fadingKeys
  rw [List.nil_append] at h
  exact ⟨(histories_are_frugal hnet h).1, by decide +kernel⟩

end LintEngine.Versions.Central
