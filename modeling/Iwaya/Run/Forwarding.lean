import Mathlib.Data.List.Infix
import Iwaya.Foundation.Progress
import Iwaya.Run.Relay

/-!
# What becomes of a caught signal

The handlers catch a signal, the relay takes it and sends it on. Whether what is sent still
finds the child is one question; this is about the other two. Every signal that is sent was
caught, and for each that was caught at most one is sent, whatever the threads and the
arrivals do between; and none gets lost on the way: what arrived is sent, or in the hand of
the relay, or still pending, and while the target is waited for the relay can bring all of
it to the child (`Iwaya.signals_forwarded`).

And nobody waits for ever: from every configuration that supervision comes to it can come to
its end, with the code of the target if that is still waited for, and at the end the relay is
over and the target is reaped (`Iwaya.supervision_ends`).
-/

namespace Iwaya

open Text Effects Relation

/-! ### Counting -/

namespace Scene

/-- The signal in the hand of the relay. -/
def inHand (s : Scene) : List ForwardedSignal :=
  match s.relay with
  | some ⟨_, .holding signal⟩ => [signal]
  | _ => []

/-- How often a signal was sent. -/
def forwarded (s : Scene) (signal : ForwardedSignal) : ℕ := (s.sent.map Kill.signal).count signal

/-- How often it was caught and is not sent yet. -/
def underway (s : Scene) (signal : ForwardedSignal) : ℕ :=
  s.pending.count signal + s.inHand.count signal

end Scene

/-- The signal that arrives in a turn. -/
def arrivalOf : Turn Call.Arg Call.Ans Moment → Option ForwardedSignal
  | .move (.arrives signal) => some signal
  | _ => none

/-- The signals that arrive in some turns. -/
def arrivals (ts : List (Turn Call.Arg Call.Ans Moment)) : List ForwardedSignal :=
  ts.filterMap arrivalOf

section

variable {command : Command} {runtime : Str} {c c' : Supervision}
  {t : Turn Call.Arg Call.Ans Moment} {ts : List (Turn Call.Arg Call.Ans Moment)}
  {s s' : Scene} {signal : ForwardedSignal}

theorem arrivals_append (ts ts' : List (Turn Call.Arg Call.Ans Moment)) :
    arrivals (ts ++ ts') = arrivals ts ++ arrivals ts' :=
  List.filterMap_append

/-- A call sends nothing and takes nothing. The relay has nothing in hand when it is started. -/
theorem Scene.Answers.account {e : Effect} (h : s.Answers e s')
    (hspawn : e.kind = .targetSpawn → s.relay = none) (signal : ForwardedSignal) :
    s'.forwarded signal = s.forwarded signal ∧ s'.underway signal = s.underway signal := by
  cases h with
  | spawns pid => simp [Scene.forwarded, Scene.underway, Scene.inHand, hspawn rfl]
  | _ => exact ⟨rfl, rfl⟩

/-- Catching a signal makes at most one more of it, and at least one. -/
theorem count_insert (pending : List ForwardedSignal) (caught signal : ForwardedSignal) :
    pending.count signal ≤ (pending.insert caught).count signal ∧
      (pending.insert caught).count signal ≤ pending.count signal + [caught].count signal ∧
      0 < (pending.insert caught).count caught := by
  refine ⟨(List.sublist_insert _ _).count_le _, ?_,
    List.count_pos_iff.mpr List.mem_insert_self⟩
  by_cases hm : caught ∈ pending
  · rw [List.insert_of_mem hm]
    exact Nat.le_add_right _ _
  · rw [List.insert_of_not_mem hm, List.count_cons, List.count_singleton]

/-- **A move accounts for every signal**: it is caught, taken or sent, one at a time. -/
theorem Scene.Moves.account {q : Option (Waiting Call.Arg)} {l : Moment} (h : s.Moves q l s')
    (signal : ForwardedSignal) : s.forwarded signal ≤ s'.forwarded signal ∧
      s.forwarded signal + s.underway signal ≤ s'.forwarded signal + s'.underway signal ∧
      s'.forwarded signal + s'.underway signal ≤
        s.forwarded signal + s.underway signal + (arrivals [.move l]).count signal := by
  cases h with
  | arrives caught h =>
    obtain ⟨hle, hge, -⟩ := count_insert s.pending caught signal
    have hcaught : arrivals [.move (.arrives caught)] = [caught] := rfl
    have hforwarded : ({ s with pending := s.pending.insert caught } : Scene).forwarded signal =
      s.forwarded signal := rfl
    have hunderway : ({ s with pending := s.pending.insert caught } : Scene).underway signal =
      (s.pending.insert caught).count signal + s.inHand.count signal := rfl
    rw [hcaught, hforwarded, hunderway, Scene.underway]
    omega
  | @takes pid taken h hp =>
    have hbefore : s.inHand = [] := by simp [Scene.inHand, h]
    have hafter : (s.pending.erase taken).count signal + [taken].count signal =
        s.pending.count signal := by
      have hpos : 0 < s.pending.count taken := List.count_pos_iff.mpr hp
      rw [List.count_erase, List.count_singleton]
      by_cases he : taken = signal
      · subst he
        simp only [BEq.rfl, if_true]
        omega
      · simp [he]
    have hunderway : (Scene.mk s.registered s.closed (s.pending.erase taken) s.child
        (some ⟨pid, .holding taken⟩) s.sent).underway signal = s.underway signal := by
      rw [Scene.underway, Scene.underway, hbefore]
      exact hafter
    rw [hunderway]
    exact ⟨le_refl _, le_refl _, Nat.le_add_right _ _⟩
  | @sends pid sent h =>
    have hbefore : s.inHand = [sent] := by simp [Scene.inHand, h]
    have hforwarded : (forwardSignal pid sent { s with relay := some ⟨pid, .idle⟩ }).forwarded
        signal = s.forwarded signal + [sent].count signal := by
      simp [Scene.forwarded, forwardSignal, List.count_append]
    have hunderway : (forwardSignal pid sent { s with relay := some ⟨pid, .idle⟩ }).underway
        signal = s.pending.count signal := rfl
    rw [hforwarded, hunderway, Scene.underway, hbefore]
    omega
  | polls h _ | retries h | ends h _ =>
    have hbefore : s.underway signal = s.pending.count signal := by
      simp [Scene.underway, Scene.inHand, h]
    rw [hbefore]
    change s.forwarded signal ≤ s.forwarded signal ∧
      s.forwarded signal + s.pending.count signal ≤
        s.forwarded signal + (s.pending.count signal + 0) ∧
      s.forwarded signal + (s.pending.count signal + 0) ≤ _
    omega
  | exits h | closes h => exact ⟨le_refl _, le_refl _, Nat.le_add_right _ _⟩

/-! ### Where supervision stands -/

/-- The target is started once, and not before. -/
theorem spawns_once {tr t : List Effect} {e : Effect} {r : Except ExecError UInt8}
    (h : Runs (supervise command runtime) (tr ++ e :: t) r) :
    (e.kind = .targetSpawn →
        Call.targetSpawn ∉ tr.map Event.kind ∧ Call.targetWait ∉ tr.map Event.kind) ∧
      (e.kind = .targetWait → Call.targetWait ∉ tr.map Event.kind ∧
        Call.targetReap ∉ tr.map Event.kind) :=
  @kinds_before _ _ _ (fun k before =>
    (k = .targetSpawn → Call.targetSpawn ∉ before ∧ Call.targetWait ∉ before) ∧
      (k = .targetWait → Call.targetWait ∉ before ∧ Call.targetReap ∉ before)) (by decide) _ _ _ h

/-- What the calls so far say of the child and of the relay. -/
structure Staged (c : Supervision) : Prop extends Linked c where
  unspawned : (∀ command, (⟨.targetSpawn, command, .ok ()⟩ : Effect) ∉ c.trace) →
    c.outside.relay = none
  spawned : ∀ command, (⟨.targetSpawn, command, .ok ()⟩ : Effect) ∈ c.trace →
    ∃ pid state, c.outside.relay = some ⟨pid, state⟩
  unreaped : Call.targetWait ∉ c.trace.map Event.kind →
    Call.targetReap ∉ c.trace.map Event.kind → ¬c.outside.Reaped
  waited : ∀ status, (⟨.targetWait, (), .ok status⟩ : Effect) ∈ c.trace → c.outside.Reaped

theorem staged_start : Staged (Supervision.start command runtime) where
  toLinked := linked_start
  unspawned _ := rfl
  spawned _ h := by cases h
  unreaped _ _ := fun ⟨_, h⟩ => by cases h
  waited _ h := by cases h

theorem staged_step (hw : c.Within (supervise command runtime)) (hs : Staged c)
    (ht : relaySurroundings.Takes c t c') : Staged c' := by
  refine ⟨linked_step hw hs.toLinked ht, ?_, ?_, ?_, ?_⟩
  all_goals
    rcases ht with @⟨k, x, next, tr, s, s', ans, ha⟩ | @⟨q, tr, s, s', l, hm⟩ | _ | _ |
      @⟨p, tr, s, s', hk⟩
  · intro hn
    have hnone := hs.unspawned fun command hm => hn command (List.mem_append_left _ hm)
    cases ha with
    | spawns pid => exact absurd (List.mem_append_right _ (List.mem_singleton_self _)) (hn _)
    | _ => exact hnone
  · intro hn
    have hnone := hs.unspawned hn
    cases hm with
    | exits h | arrives signal h | closes h => exact hnone
    | polls h _ | retries h | takes h _ | sends h | ends h _ => cases hnone.symm.trans h
  · exact hs.unspawned
  · exact hs.unspawned
  · obtain rfl := hk
    intro hn
    exact congrArg (Option.map fun relay => { relay with state := .finished }) (hs.unspawned hn)
  · intro command hm
    rcases (Scene.Answers.relay ha).2 with ⟨hr, -⟩ | ⟨-, pid, hr, -⟩
    · rcases List.mem_append.mp hm with hm | hm
      · exact hr ▸ hs.spawned command hm
      · cases List.mem_singleton.mp hm
        cases ha with
        | spawns pid => exact ⟨pid, .idle, rfl⟩
    · exact ⟨pid, .idle, hr⟩
  · intro command hmem
    have hsome := hs.spawned command hmem
    cases hm with
    | exits h | arrives signal h | closes h => exact hsome
    | polls h _ | retries h | takes h _ | sends h | ends h _ => exact ⟨_, _, rfl⟩
  · exact hs.spawned
  · exact hs.spawned
  · obtain rfl := hk
    intro command hmem
    obtain ⟨pid, state, hr⟩ := hs.spawned command hmem
    exact ⟨pid, .finished, congrArg (Option.map fun relay => { relay with state := .finished }) hr⟩
  · intro hwait hreap
    rw [List.map_append, List.mem_append, not_or] at hwait hreap
    cases ha with
    | spawns pid =>
      rintro ⟨_, h⟩
      cases h
    | waits h => exact absurd (List.mem_singleton_self _) hwait.2
    | reaps h => exact absurd (List.mem_singleton_self _) hreap.2
    | _ => exact hs.unreaped hwait.1 hreap.1
  · intro hwait hreap
    have hn := hs.unreaped hwait hreap
    cases hm with
    | exits h =>
      rintro ⟨_, h⟩
      cases h
    | _ => exact hn
  · exact hs.unreaped
  · exact hs.unreaped
  · obtain rfl := hk
    exact hs.unreaped
  · intro status hmem
    rcases List.mem_append.mp hmem with hm | hm
    · have hreaped := hs.waited status hm
      cases ha with
      | spawns pid =>
        -- nothing was waited for when the target is started
        obtain ⟨t, r, hrun⟩ := hw.exists_runs_call sampleAnswers (Except.ok ())
        have hwait : Call.targetWait ∈ tr.map Event.kind :=
          List.mem_map.mpr ⟨⟨.targetWait, (), .ok status⟩, hm, rfl⟩
        exact absurd hwait ((spawns_once hrun).1 rfl).2
      | waits h => exact ⟨_, rfl⟩
      | reaps h => exact ⟨_, rfl⟩
      | _ => exact hreaped
    · cases List.mem_singleton.mp hm
      cases ha with
      | waits h => exact ⟨_, rfl⟩
  · intro status hmem
    obtain ⟨pid, hreaped⟩ := hs.waited status hmem
    cases hm with
    | exits h => cases hreaped.symm.trans h
    | _ => exact ⟨pid, hreaped⟩
  · exact hs.waited
  · exact hs.waited
  · obtain rfl := hk
    exact hs.waited

/-! ### Every signal is accounted for -/

/-- **A turn accounts for every signal**; only a process that is killed drops one. -/
theorem account_step (hw : c.Within (supervise command runtime)) (hs : Staged c)
    (ht : relaySurroundings.Takes c t c') (signal : ForwardedSignal) :
    (t ≠ .kill → c.outside.forwarded signal ≤ c'.outside.forwarded signal ∧
      c.outside.forwarded signal + c.outside.underway signal ≤
        c'.outside.forwarded signal + c'.outside.underway signal) ∧
      c'.outside.forwarded signal + c'.outside.underway signal ≤
        c.outside.forwarded signal + c.outside.underway signal + (arrivals [t]).count signal := by
  rcases ht with @⟨k, x, next, tr, s, s', ans, ha⟩ | @⟨q, tr, s, s', l, hm⟩ | _ | _ |
    @⟨p, tr, s, s', hk⟩
  · obtain ⟨t, r, hrun⟩ := hw.exists_runs_call sampleAnswers ans
    obtain ⟨hf, hu⟩ := Scene.Answers.account ha
      (fun hspawn => hs.unspawned fun _ hm => ((spawns_once hrun).1 hspawn).1
        (List.mem_map.mpr ⟨_, hm, rfl⟩)) signal
    simp only [hf, hu]
    exact ⟨fun _ => ⟨le_refl _, le_refl _⟩, Nat.le_add_right _ _⟩
  · obtain ⟨hf, hle, hge⟩ := Scene.Moves.account hm signal
    exact ⟨fun _ => ⟨hf, hle⟩, hge⟩
  · exact ⟨fun _ => ⟨le_refl _, le_refl _⟩, Nat.le_add_right _ _⟩
  · exact ⟨fun _ => ⟨le_refl _, le_refl _⟩, Nat.le_add_right _ _⟩
  · obtain rfl := hk
    refine ⟨fun hn => absurd rfl hn, Nat.le_add_right_of_le (Nat.add_le_add_left ?_ _)⟩
    refine Nat.add_le_add_left ?_ _
    simp only [Scene.inHand]
    rcases s.relay with _ | ⟨pid, state⟩ <;> simp

/-- A signal that has just arrived is underway. -/
theorem underway_of_arrives (ht : relaySurroundings.Takes c t c') (h : signal ∈ arrivals [t]) :
    c'.outside.forwarded signal = c.outside.forwarded signal ∧
      0 < c'.outside.underway signal := by
  rcases ht with _ | @⟨q, tr, s, s', l, hm⟩ | _ | _ | _
  case move =>
    cases hm with
    | arrives caught _ =>
      obtain rfl : signal = caught := List.mem_singleton.mp h
      exact ⟨rfl, Nat.add_pos_left (count_insert s.pending signal signal).2.2 _⟩
    | _ => cases h
  all_goals cases h

/-- **Nothing is sent that was not caught, or more often than it was; and what was caught was
sent or is underway**, unless the process was killed. -/
theorem account_follows (hw : c.Within (supervise command runtime)) (hs : Staged c)
    (h : relaySurroundings.Follows c ts c') (signal : ForwardedSignal) :
    c'.Within (supervise command runtime) ∧ Staged c' ∧
      c'.outside.forwarded signal + c'.outside.underway signal ≤
        c.outside.forwarded signal + c.outside.underway signal + (arrivals ts).count signal ∧
      (.kill ∉ ts → c.outside.forwarded signal ≤ c'.outside.forwarded signal ∧
        c.outside.forwarded signal + c.outside.underway signal ≤
          c'.outside.forwarded signal + c'.outside.underway signal ∧
        (signal ∈ arrivals ts → c.outside.forwarded signal <
          c'.outside.forwarded signal + c'.outside.underway signal)) := by
  induction h with
  | refl =>
    exact ⟨hw, hs, Nat.le_add_right _ _, fun _ => ⟨le_refl _, le_refl _, fun h => by cases h⟩⟩
  | @tail ts c' c'' t h ht ih =>
    obtain ⟨hw', hs', hupper, hlower⟩ := ih
    obtain ⟨hkept, hstep⟩ := account_step hw' hs' ht signal
    refine ⟨ht.within hw', staged_step hw' hs' ht, ?_, fun hkill => ?_⟩
    · rw [arrivals_append, List.count_append]
      omega
    · rw [List.mem_append, not_or, List.mem_singleton] at hkill
      obtain ⟨hf, hsum⟩ := hkept (Ne.symm hkill.2)
      obtain ⟨hf', hsum', hlost⟩ := hlower hkill.1
      refine ⟨hf'.trans hf, hsum'.trans hsum, fun hm => ?_⟩
      rw [arrivals_append, List.mem_append] at hm
      rcases hm with hm | hm
      · exact (hlost hm).trans_le hsum
      · obtain ⟨hsame, hpos⟩ := underway_of_arrives ht hm
        omega

/-! ### What is underway can be brought to the child -/

/-- The moves of the relay that bring a signal to the child. -/
def relayMoves : List Moment := [.polls, .retries, .takes, .sends]

/-- What the relay does by itself, nobody else doing anything. -/
def Brings (c : Supervision) (ts : List (Turn Call.Arg Call.Ans Moment)) (c' : Supervision) :
    Prop :=
  relaySurroundings.Follows c ts c' ∧ ∀ t ∈ ts, ∃ l ∈ relayMoves, t = .move l

theorem Brings.refl : Brings c [] c := ⟨.refl, List.forall_mem_nil _⟩

theorem Brings.trans {c'' : Supervision} {ts' : List (Turn Call.Arg Call.Ans Moment)}
    (h : Brings c ts c') (h' : Brings c' ts' c'') : Brings c (ts ++ ts') c'' :=
  ⟨h.1.trans h'.1, List.forall_mem_append.mpr ⟨h.2, h'.2⟩⟩

/-- Nothing arrives meanwhile. -/
theorem Brings.arrivals (h : Brings c ts c') : arrivals ts = [] := by
  refine List.filterMap_eq_nil_iff.mpr fun t ht => ?_
  obtain ⟨l, hl, rfl⟩ := h.2 t ht
  cases l with
  | arrives signal => simp [relayMoves] at hl
  | _ => rfl

theorem Brings.kill (h : Brings c ts c') : .kill ∉ ts := fun hkill => by
  obtain ⟨l, -, hl⟩ := h.2 _ hkill
  cases hl

/-- The scene after the relay sent all there was to the child, whose process id it has. -/
structure Scene.Drained (s s' : Scene) (pid : ℕ) : Prop where
  pending : s'.pending = []
  relay : s'.relay = some ⟨pid, .idle⟩
  sent : ∃ kills, s'.sent = s.sent ++ kills ∧
    ∀ kill ∈ kills, kill.pid = pid ∧ kill.child = s.child

/-- What was sent to the child before is sent as well. -/
theorem Scene.Drained.after {s₁ s₂ : Scene} {pid : ℕ} (h : s₁.Drained s₂ pid)
    (hchild : s₁.child = s.child) {kills : List Kill} (hsent : s₁.sent = s.sent ++ kills)
    (hkills : ∀ kill ∈ kills, kill.pid = pid ∧ kill.child = s.child) : s.Drained s₂ pid := by
  obtain ⟨kills', hsent', hkills'⟩ := h.sent
  refine ⟨h.pending, h.relay, kills ++ kills', ?_, List.forall_mem_append.mpr ⟨hkills, ?_⟩⟩
  · rw [hsent', hsent, List.append_assoc]
  · exact hchild ▸ hkills'

/-- Nothing is underway then. -/
theorem Scene.Drained.underway {pid : ℕ} (h : s.Drained s' pid) (signal : ForwardedSignal) :
    s'.underway signal = 0 := by
  simp [Scene.underway, Scene.inHand, h.pending, h.relay]

section

variable {q : Process Call.Arg Call.Ans ExecError UInt8} {tr : List Effect} {pid : ℕ}

theorem Brings.move {l : Moment} (h : s.Moves q.waiting l s') (hl : l ∈ relayMoves) :
    Brings ⟨q, tr, s⟩ [.move l] ⟨q, tr, s'⟩ :=
  ⟨.single (.move h), fun _ ht => ⟨l, hl, List.mem_singleton.mp ht⟩⟩

/-- A relay between two signals takes and sends what is pending, one after the other. -/
theorem drains_idle (pending : List ForwardedSignal) :
    ∀ {s : Scene}, s.pending = pending → s.relay = some ⟨pid, .idle⟩ → s.closed = false →
      ∃ ts s', Brings ⟨q, tr, s⟩ ts ⟨q, tr, s'⟩ ∧ s.Drained s' pid := by
  induction pending with
  | nil =>
    intro s hp hr _
    exact ⟨[], s, .refl, hp, hr, [], (List.append_nil _).symm, List.forall_mem_nil _⟩
  | cons signal pending ih =>
    intro s hp hr ho
    have hpolls : s.Moves q.waiting .polls { s with relay := some ⟨pid, .polling⟩ } := .polls hr ho
    have htakes := @Scene.Moves.takes q.waiting { s with relay := some ⟨pid, .polling⟩ } pid signal
      rfl (hp ▸ List.mem_cons_self)
    have hsends := @Scene.Moves.sends q.waiting (Scene.mk s.registered s.closed
      (s.pending.erase signal) s.child (some ⟨pid, .holding signal⟩) s.sent) pid signal rfl
    obtain ⟨ts, s', hts, hdrained⟩ := @ih
      (forwardSignal pid signal (Scene.mk s.registered s.closed (s.pending.erase signal) s.child
        (some ⟨pid, .idle⟩) s.sent))
      (by rw [forwardSignal, hp, List.erase_cons_head]) rfl ho
    refine ⟨_, s', (((Brings.move hpolls (by simp [relayMoves])).trans
      (Brings.move htakes (by simp [relayMoves]))).trans
      (Brings.move hsends (by simp [relayMoves]))).trans hts, ?_⟩
    exact hdrained.after rfl rfl fun kill hkill => List.mem_singleton.mp hkill ▸ ⟨rfl, rfl⟩

/-- So does one that has not ended, as long as the handle is open: a signal in hand is sent
first. -/
theorem drains {state : Relaying} (hr : s.relay = some ⟨pid, state⟩) (ho : s.closed = false)
    (hn : state ≠ .finished) :
    ∃ ts s', Brings ⟨q, tr, s⟩ ts ⟨q, tr, s'⟩ ∧ s.Drained s' pid := by
  cases state with
  | idle => exact drains_idle s.pending rfl hr ho
  | polling =>
    obtain ⟨ts, s', hts, hdrained⟩ := @drains_idle q tr pid s.pending
      { s with relay := some ⟨pid, .idle⟩ } rfl rfl ho
    exact ⟨_, s', (Brings.move (.retries hr) (by simp [relayMoves])).trans hts, hdrained.after rfl
      (List.append_nil _).symm (List.forall_mem_nil _)⟩
  | holding signal =>
    obtain ⟨ts, s', hts, hdrained⟩ := @drains_idle q tr pid s.pending
      (forwardSignal pid signal { s with relay := some ⟨pid, .idle⟩ }) rfl rfl ho
    exact ⟨_, s', (Brings.move (.sends hr) (by simp [relayMoves])).trans hts,
      hdrained.after rfl rfl fun kill hkill => List.mem_singleton.mp hkill ▸ ⟨rfl, rfl⟩⟩
  | finished => exact absurd rfl hn

end

/-- A target that is waited for was started. -/
theorem started_of_waits {tr t : List Effect} {e : Effect} {r : Except ExecError UInt8}
    (h : Runs (supervise command runtime) (tr ++ e :: t) r) (he : e.kind = .targetWait) :
    (⟨.targetSpawn, command, .ok ()⟩ : Effect) ∈ tr := by
  have hmem : e ∈ tr ++ e :: t := List.mem_append_right _ List.mem_cons_self
  rcases supervise_cases h with ⟨_, -, htr⟩ | ⟨rest, htr, ⟨_, -, rfl | rfl⟩ | ⟨rest', rfl, -⟩⟩
  · rw [htr, List.mem_singleton] at hmem
    subst hmem
    cases he
  · rw [htr, List.mem_cons, List.mem_singleton] at hmem
    rcases hmem with rfl | rfl <;> cases he
  · rw [htr, List.mem_cons, List.mem_cons, List.mem_singleton] at hmem
    rcases hmem with rfl | rfl | rfl <;> cases he
  · have hspawn : (⟨.targetSpawn, command, .ok ()⟩ : Effect) ∈ tr ++ e :: t := by simp [htr]
    rcases List.mem_append.mp hspawn with hspawn | hspawn
    · exact hspawn
    rcases List.mem_cons.mp hspawn with rfl | hspawn
    · cases he
    · -- nothing is started after the wait
      obtain ⟨t₁, t₂, rfl⟩ := List.append_of_mem hspawn
      rw [← List.cons_append, ← List.append_assoc] at h
      exact absurd (List.mem_map.mpr ⟨e, List.mem_append_right _ List.mem_cons_self, he⟩)
        ((spawns_once h).1 rfl).2

/-- It is not reaped while it is waited for, and the relay for it has not ended. -/
theorem waiting_target {next : Call.Ans .targetWait → Step ExecError UInt8} {tr : List Effect}
    (hw : Snapshot.Within (supervise command runtime)
      ⟨.live (.call .targetWait () next), tr, s⟩)
    (hs : Staged ⟨.live (.call .targetWait () next), tr, s⟩) :
    s.closed = false ∧ ∃ pid life state, s.child = some ⟨pid, life⟩ ∧ life ≠ .reaped ∧
      s.relay = some ⟨pid, state⟩ ∧ state ≠ .finished := by
  have hopen := open_of_waiting hw hs.toLinked
  obtain ⟨t, r, hrun⟩ := hw.exists_runs_call sampleAnswers (.error nulError)
  obtain ⟨hnowait, hnoreap⟩ := (spawns_once hrun).2 rfl
  obtain ⟨pid, state, hr⟩ := hs.spawned _ (started_of_waits hrun rfl)
  obtain ⟨life, hch⟩ := hs.toLinked.child hr
  refine ⟨hopen, pid, life, state, hch, ?_, hr, ?_⟩
  · rintro rfl
    exact hs.unreaped hnowait hnoreap ⟨pid, hch⟩
  · rintro rfl
    rcases hs.finished pid hr with hc | hdead
    · cases hopen.symm.trans hc
    · cases hdead

/-- **Every signal that arrives is sent once at most, and none gets lost.** After any course of
the supervising thread, the relay and the arriving signals, however it goes on: no signal is
sent more often than it was underway or arrived; unless the process is killed, each that
arrives is sent after that or still underway; and while the target is waited for, the relay
alone can send all that is underway, to the child, which is not reaped. -/
theorem signals_forwarded (command : Command) (runtime : Str) (c c' : Supervision)
    (ts : List (Turn Call.Arg Call.Ans Moment)) (signal : ForwardedSignal)
    (hc : relaySurroundings.Course anyTurn (Supervision.start command runtime) c)
    (h : relaySurroundings.Follows c ts c') :
    c'.outside.forwarded signal + c'.outside.underway signal ≤
        c.outside.forwarded signal + c.outside.underway signal + (arrivals ts).count signal ∧
      (.kill ∉ ts →
        c.outside.forwarded signal + c.outside.underway signal ≤
          c'.outside.forwarded signal + c'.outside.underway signal ∧
        (signal ∈ arrivals ts → c.outside.forwarded signal <
          c'.outside.forwarded signal + c'.outside.underway signal)) ∧
      (c'.process.waiting = some ⟨.targetWait, ()⟩ → ∃ ts' s,
        Brings c' ts' ⟨c'.process, c'.trace, s⟩ ∧
        s.forwarded signal = c'.outside.forwarded signal + c'.outside.underway signal ∧
        s.underway signal = 0 ∧ ∃ kills, s.sent = c'.outside.sent ++ kills ∧
          ∀ kill ∈ kills, ∃ life, life ≠ .reaped ∧ kill.child = some ⟨kill.pid, life⟩) := by
  obtain ⟨hw, hs⟩ := hc.keeps staged_start fun c t c' hw hs ht _ => staged_step hw hs ht
  obtain ⟨hw', hs', hupper, hlower⟩ := account_follows hw hs h signal
  refine ⟨hupper, fun hkill => (hlower hkill).2, fun hwait => ?_⟩
  obtain ⟨q, tr, s⟩ := c'
  obtain ⟨next, rfl⟩ := Process.waiting_eq_some.mp hwait
  obtain ⟨hopen, pid, life, state, hch, hlife, hr, hn⟩ := waiting_target hw' hs'
  obtain ⟨ts', s', hts, hdrained⟩ := @drains s _ tr pid state hr hopen hn
  obtain ⟨-, -, hge, hle⟩ := account_follows hw' hs' hts.1 signal
  have hsum : s.forwarded signal + s.underway signal ≤ s'.forwarded signal + s'.underway signal :=
    (hle hts.kill).2.1
  have hge : s'.forwarded signal + s'.underway signal ≤ s.forwarded signal + s.underway signal := by
    rwa [hts.arrivals, List.count_nil, Nat.add_zero] at hge
  have hzero := hdrained.underway signal
  obtain ⟨kills, hsent, hkills⟩ := hdrained.sent
  refine ⟨ts', s', hts, ?_, hzero, kills, hsent, fun kill hkill => ⟨life, hlife, ?_⟩⟩
  · rw [hzero] at hsum hge
    exact le_antisymm hge hsum
  · obtain ⟨rfl, hchild⟩ := hkills kill hkill
    exact hchild.trans hch

/-- A signal that arrives while the target runs comes to be sent to it, once. -/
theorem signals_forwarded_sample : ∃ ts s, Brings
    ⟨.live (waitForTarget "docker".toList),
      [⟨.signalsRegister, (), .ok ()⟩, ⟨.targetSpawn, sampleCommand, .ok ()⟩],
      waited 4711 .running [.sigterm]⟩ ts
    ⟨.live (waitForTarget "docker".toList),
      [⟨.signalsRegister, (), .ok ()⟩, ⟨.targetSpawn, sampleCommand, .ok ()⟩], s⟩ ∧
    s.forwarded .sigterm = 1 := by
  have hcourse := @course_to_wait sampleCommand "docker".toList (by decide) 4711
  have harrives := Surroundings.Follows.single (.move (.arrives .sigterm rfl) :
    relaySurroundings.Takes (⟨.live (waitForTarget "docker".toList),
      [⟨.signalsRegister, (), .ok ()⟩, ⟨.targetSpawn, sampleCommand, .ok ()⟩],
      waited 4711 .running []⟩ : Supervision) _ _)
  obtain ⟨-, -, hbrings⟩ := signals_forwarded sampleCommand "docker".toList _ _ _ .sigterm hcourse
    harrives
  obtain ⟨ts, s, hts, hsent, -⟩ := hbrings rfl
  exact ⟨ts, s, hts, hsent⟩

/-! ### The relay gets done once the handle is closed -/

/-- How many moves the relay can still make when the handle is closed. -/
def Relaying.remaining : Relaying → ℕ
  | polling => 3
  | holding _ => 2
  | idle => 1
  | finished => 0

/-- How many signals it can still send. -/
def Relaying.unsent : Relaying → ℕ
  | polling | holding _ => 1
  | idle | finished => 0

/-- A count of the state the relay is in. -/
def Scene.ofRelay (count : Relaying → ℕ) (s : Scene) : ℕ :=
  s.relay.elim 0 fun relay => count relay.state

/-- Whether a turn is a move of the relay. -/
def relayTurn : Turn Call.Arg Call.Ans Moment → Bool
  | .move .polls | .move .retries | .move .takes | .move .sends | .move .ends => true
  | _ => false

/-- Whether it sends a signal. -/
def sendTurn : Turn Call.Arg Call.Ans Moment → Bool
  | .move .sends => true
  | _ => false

/-- Supervision after its handle was closed. -/
structure Closed (command : Command) (runtime : Str) (c : Supervision) : Prop where
  within : c.Within (supervise command runtime)
  staged : Staged c
  closed : c.outside.closed = true

/-- **A turn after the close** leaves the handle closed, and what the relay does is counted
off. -/
theorem counted_step (h : Closed command runtime c) (ht : relaySurroundings.Takes c t c') :
    Closed command runtime c' ∧
      [t].countP relayTurn + c'.outside.ofRelay Relaying.remaining ≤
        c.outside.ofRelay Relaying.remaining ∧
      [t].countP sendTurn + c'.outside.ofRelay Relaying.unsent ≤ c.outside.ofRelay Relaying.unsent ∧
      c'.outside.sent.length = c.outside.sent.length + [t].countP sendTurn := by
  obtain ⟨hw, hs, hc⟩ := h
  suffices hcount : c'.outside.closed = true ∧
      [t].countP relayTurn + c'.outside.ofRelay Relaying.remaining ≤
        c.outside.ofRelay Relaying.remaining ∧
      [t].countP sendTurn + c'.outside.ofRelay Relaying.unsent ≤ c.outside.ofRelay Relaying.unsent ∧
      c'.outside.sent.length = c.outside.sent.length + [t].countP sendTurn from
    ⟨⟨ht.within hw, staged_step hw hs ht, hcount.1⟩, hcount.2⟩
  rcases ht with @⟨k, x, next, tr, s, s', ans, ha⟩ | @⟨q, tr, s, s', l, hm⟩ | _ | _ |
    @⟨p, tr, s, s', hk⟩
  · obtain ⟨t, r, hrun⟩ := hw.exists_runs_call sampleAnswers ans
    cases ha with
    | spawns pid =>
      -- the target is not started after the close
      rcases hs.closing hc with hin | hwait | hdead
      · exact absurd hin ((closes_between hrun).1 (Or.inl rfl))
      · cases hwait
      · cases hdead
    | _ => exact ⟨hc, by simp [relayTurn, Scene.ofRelay], by simp [sendTurn, Scene.ofRelay], rfl⟩
  · cases hm with
    | polls h ho => cases hc.symm.trans ho
    | closes h => exact ⟨rfl, by simp [relayTurn, Scene.ofRelay],
        by simp [sendTurn, Scene.ofRelay], rfl⟩
    | exits h | arrives signal h => exact ⟨hc, by simp [relayTurn, Scene.ofRelay],
        by simp [sendTurn, Scene.ofRelay], rfl⟩
    | retries h | takes h _ | sends h | ends h _ =>
      refine ⟨hc, ?_, ?_, ?_⟩ <;>
        simp [relayTurn, sendTurn, forwardSignal, Scene.ofRelay, Relaying.remaining,
          Relaying.unsent, h]
  · exact ⟨hc, by simp [relayTurn], by simp [sendTurn], rfl⟩
  · exact ⟨hc, by simp [relayTurn], by simp [sendTurn], rfl⟩
  · obtain rfl := hk
    refine ⟨hc, ?_, ?_, rfl⟩ <;> rcases hr : s.relay with _ | relay <;>
      simp [relayTurn, sendTurn, Scene.ofRelay, Relaying.remaining, Relaying.unsent, hr]

/-- A relay that has not ended can move, once the handle is closed. -/
theorem exists_relay_move {q : Option (Waiting Call.Arg)} (hc : s.closed = true)
    (h : ¬∀ relay, s.relay = some relay → relay.state = .finished) :
    ∃ l s', s.Moves q l s' ∧ [.move l].countP relayTurn = 1 := by
  push Not at h
  obtain ⟨⟨pid, state⟩, hr, hn⟩ := h
  cases state with
  | idle => exact ⟨_, _, .ends hr hc, rfl⟩
  | polling => exact ⟨_, _, .retries hr, rfl⟩
  | holding signal => exact ⟨_, _, .sends hr, rfl⟩
  | finished => exact absurd rfl hn

/-- After the close the relay moves three times at most, and sends one signal at most. -/
theorem counted_follows (hc : Closed command runtime c) (h : relaySurroundings.Follows c ts c') :
    ts.countP relayTurn ≤ 3 ∧ c'.outside.sent.length ≤ c.outside.sent.length + 1 := by
  have hfirst : c.outside.ofRelay Relaying.remaining ≤ 3 ∧
      c.outside.ofRelay Relaying.unsent ≤ 1 := by
    rcases hr : c.outside.relay with _ | ⟨pid, state⟩
    · simp [Scene.ofRelay, hr]
    · cases state <;> simp [Scene.ofRelay, hr, Relaying.remaining, Relaying.unsent]
  have hstep : ∀ x t x', (Closed command runtime x ∧
        x.outside.sent.length + x.outside.ofRelay Relaying.unsent ≤ c.outside.sent.length + 1) →
      relaySurroundings.Takes x t x' →
      (Closed command runtime x' ∧
        x'.outside.sent.length + x'.outside.ofRelay Relaying.unsent ≤
          c.outside.sent.length + 1) ∧
      [t].countP relayTurn + x'.outside.ofRelay Relaying.remaining ≤
        x.outside.ofRelay Relaying.remaining := by
    rintro x t x' ⟨hc, hsent⟩ ht
    obtain ⟨hc', hmoves, hsends, hlength⟩ := counted_step hc ht
    exact ⟨⟨hc', by omega⟩, hmoves⟩
  obtain ⟨⟨-, hsent⟩, hmoves⟩ := h.pays (fun x => x.outside.ofRelay Relaying.remaining) relayTurn
    hstep ⟨hc, Nat.add_le_add_left hfirst.2 _⟩
  omega

/-- **The join returns**: the handle is closed, and the relay comes to its end. -/
theorem joins {q : Process Call.Arg Call.Ans ExecError UInt8} {tr : List Effect}
    (hq : q.waiting = some ⟨.relayClose, ()⟩)
    (hw : Snapshot.Within (supervise command runtime) ⟨q, tr, s⟩) (hs : Staged ⟨q, tr, s⟩) :
    ∃ s', relaySurroundings.Course anyTurn (⟨q, tr, s⟩ : Supervision) ⟨q, tr, s'⟩ ∧
      s'.Answers ⟨.relayClose, (), ()⟩ s' := by
  have hcloses : relaySurroundings.Takes (⟨q, tr, s⟩ : Supervision) (.move .closes)
    ⟨q, tr, { s with closed := true }⟩ := .move (.closes hq)
  have hstep : ∀ c : Supervision, (∃ s', c = ⟨q, tr, s'⟩ ∧ Closed command runtime c) →
      (¬∀ relay, c.outside.relay = some relay → relay.state = .finished) →
      ∃ t c', relaySurroundings.Takes c t c' ∧
        (∃ s', c' = ⟨q, tr, s'⟩ ∧ Closed command runtime c') ∧
        c'.outside.ofRelay Relaying.remaining < c.outside.ofRelay Relaying.remaining := by
    rintro _ ⟨s, rfl, hc⟩ hgoal
    obtain ⟨l, s', hm, hcost⟩ := exists_relay_move hc.closed hgoal
    have ht : relaySurroundings.Takes (⟨q, tr, s⟩ : Supervision) (.move l) ⟨q, tr, s'⟩ := .move hm
    obtain ⟨hc', hle, -, -⟩ := counted_step hc ht
    exact ⟨_, _, ht, ⟨s', rfl, hc'⟩, by omega⟩
  obtain ⟨_, hcourse, ⟨s', rfl, hc⟩, hgoal⟩ := Surroundings.comes_to _ _ hstep
    ⟨_, rfl, hcloses.within hw, staged_step hw hs hcloses, rfl⟩
  exact ⟨s', .head ⟨_, hcloses, trivial⟩ hcourse, .joins hc.closed hgoal⟩

/-! ### Supervision ends -/

theorem staged_course (hw : c.Within (supervise command runtime)) (hs : Staged c)
    (h : relaySurroundings.Course anyTurn c c') :
    c'.Within (supervise command runtime) ∧ Staged c' := by
  obtain ⟨ts, hts⟩ := Surroundings.exists_follows h
  obtain ⟨hw', hs', -, -⟩ := account_follows hw hs hts .sigint
  exact ⟨hw', hs'⟩

/-- **No call of supervision is waited for for ever.** -/
theorem exists_answer {k : Call} {x : k.Arg} {next : k.Ans → Step ExecError UInt8}
    {tr : List Effect} (hw : Snapshot.Within (supervise command runtime)
      ⟨.live (.call k x next), tr, s⟩)
    (hs : Staged ⟨.live (.call k x next), tr, s⟩) :
    ∃ c ans s', relaySurroundings.Course anyTurn
      (⟨.live (.call k x next), tr, s⟩ : Supervision) c ∧
      relaySurroundings.Takes c (.answer ⟨k, x, ans⟩)
        ⟨.live (next ans), tr ++ [⟨k, x, ans⟩], s'⟩ := by
  obtain ⟨t, r, hrun⟩ := hw.exists_runs_call sampleAnswers (sampleAnswers 0 k)
  have hk := @kinds_before _ _ _ (fun k _ => k ∈ [Call.signalsRegister, .targetSpawn, .targetWait,
    .relayClose, .targetKill, .targetReap]) (by decide) _ _ _ hrun
  simp only [List.mem_cons, List.not_mem_nil, or_false] at hk
  rcases hk with rfl | rfl | rfl | rfl | rfl | rfl
  · exact ⟨_, _, _, .refl, .answer (@Scene.Answers.cannotRegister _ nulError)⟩
  · exact ⟨_, _, _, .refl, .answer (@Scene.Answers.cannotSpawn _ _ nulError)⟩
  · exact ⟨_, _, _, .refl, .answer (@Scene.Answers.cannotWait _ nulError)⟩
  · obtain ⟨s', hcourse, ha⟩ := joins rfl hw hs
    exact ⟨_, (), s', hcourse, .answer ha⟩
  · exact ⟨_, (), _, .refl, .answer .kills⟩
  · exact ⟨_, (), _, .refl, .answer .cannotReap⟩

/-- **Supervision comes to its end** from wherever it is. -/
theorem supervision_completes {p : Step ExecError UInt8} {tr : List Effect}
    (hw : Snapshot.Within (supervise command runtime) ⟨.live p, tr, s⟩)
    (hs : Staged ⟨.live p, tr, s⟩) :
    ∃ r t s', relaySurroundings.Course anyTurn (⟨.live p, tr, s⟩ : Supervision)
      ⟨.ended r, tr ++ t, s'⟩ ∧ Runs p t r := by
  refine @Surroundings.completes _ _ _ _ _ _ _ _
    (fun c => c.Within (supervise command runtime) ∧ Staged c) ?_ _ _ _ ⟨hw, hs⟩
  rintro k x next tr s ⟨hw, hs⟩
  obtain ⟨c, ans, s', hcourse, ht⟩ := exists_answer hw hs
  exact ⟨c, ans, s', hcourse, ht, staged_course hw hs (hcourse.tail ⟨_, ht, trivial⟩)⟩

/-- A target whose status was waited for gives its code. -/
theorem code_of_waited {tr : List Effect} {r : Except ExecError UInt8}
    (h : Runs (supervise command runtime) tr r) {status : ExitStatus}
    (hm : (⟨.targetWait, (), .ok status⟩ : Effect) ∈ tr) : r = .ok (exitCodeOf status) := by
  rcases supervise_cases h with ⟨_, -, rfl⟩ | ⟨_, rfl, ⟨_, -, rfl | rfl⟩ | ⟨_, rfl, hw⟩⟩
  · simp at hm
  · simp at hm
  · simp at hm
  · rcases waitForTarget_cases hw with ⟨status', rfl, rfl⟩ | ⟨_, -, rfl⟩
    · simp at hm
      rw [hm]
    · simp at hm

/-- How supervision leaves the relay and the target. -/
structure Over (runtime : Str) (c : Supervision) (r : Except ExecError UInt8) : Prop where
  relay : ∀ relay, c.outside.relay = some relay → relay.state = .finished
  target : (∃ status, r = .ok (exitCodeOf status) ∧ c.outside.Reaped ∧
      (⟨.targetWait, (), .ok status⟩ : Effect) ∈ c.trace) ∨
    ∃ source, r = .error { runtime, source } ∧ (c.outside.child = none ∨
      (⟨.targetWait, (), .error source⟩ : Effect) ∈ c.trace ∧
        [Call.targetKill, .targetReap] <:+ c.trace.map Event.kind)

/-- Without a target there is no relay and no child. -/
theorem over_of_unstarted {source : IoError} (hs : Staged c)
    (hn : ∀ command, (⟨.targetSpawn, command, .ok ()⟩ : Effect) ∉ c.trace) :
    Over runtime c (.error { runtime, source }) := by
  have hnone := hs.unspawned hn
  have hpids := hs.pids
  rw [hnone] at hpids
  refine ⟨fun relay h => ?_, Or.inr ⟨source, rfl, Or.inl (Option.map_eq_none_iff.mp hpids.symm)⟩⟩
  cases hnone.symm.trans h

/-- **At the end the relay is over, and the target is reaped or was killed.** -/
theorem over_of_ended {r : Except ExecError UInt8} {tr : List Effect}
    (hw : Snapshot.Within (supervise command runtime) ⟨.ended r, tr, s⟩)
    (hs : Staged ⟨.ended r, tr, s⟩) : Over runtime ⟨.ended r, tr, s⟩ r := by
  have hrun : Runs (supervise command runtime) tr r := hw
  rcases supervise_cases hrun with ⟨source, rfl, rfl⟩ | ⟨_, rfl, ⟨source, rfl, rfl | rfl⟩ |
    ⟨_, rfl, hwait⟩⟩
  · exact over_of_unstarted hs (by simp)
  · exact over_of_unstarted hs (by simp)
  · exact over_of_unstarted hs (by simp)
  · rcases waitForTarget_cases hwait with ⟨status, rfl, rfl⟩ | ⟨source, rfl, rfl⟩
    · exact ⟨hs.joined (by simp), Or.inl ⟨status, rfl, hs.waited status (by simp), by simp⟩⟩
    · refine ⟨hs.joined (by simp), Or.inr ⟨source, rfl, Or.inr ⟨by simp, ?_⟩⟩⟩
      exact ⟨[.signalsRegister, .targetSpawn, .targetWait, .relayClose], rfl⟩

/-- **Supervision can always end, and then the relay is over and the target dealt with.** After
any course of the supervising thread, the relay and the arriving signals: a process that is
not over can come to its end, so that no thread waits for the other for ever; while the target
is waited for, it can end with the code of any status; once the handle is closed the relay
moves three times at most, and sends one signal at most; and at the end the relay is over, and
the target is reaped with its status, or was killed, or never started. -/
theorem supervision_ends (command : Command) (runtime : Str) (c : Supervision)
    (hc : relaySurroundings.Course anyTurn (Supervision.start command runtime) c) :
    (∀ p, c.process = .live p → ∃ r tr s, relaySurroundings.Course anyTurn c ⟨.ended r, tr, s⟩) ∧
      (c.process.waiting = some ⟨.targetWait, ()⟩ → ∀ status, ∃ tr s,
        relaySurroundings.Course anyTurn c ⟨.ended (.ok (exitCodeOf status)), tr, s⟩) ∧
      (c.outside.closed = true → ∀ ts c', relaySurroundings.Follows c ts c' →
        ts.countP relayTurn ≤ 3 ∧ c'.outside.sent.length ≤ c.outside.sent.length + 1) ∧
      ∀ r, c.process = .ended r → Over runtime c r := by
  obtain ⟨hw, hs⟩ := hc.keeps staged_start fun c t c' hw hs ht _ => staged_step hw hs ht
  obtain ⟨q, tr, s⟩ := c
  refine ⟨?_, ?_, fun hclosed ts c' h => counted_follows ⟨hw, hs, hclosed⟩ h, ?_⟩
  · rintro p rfl
    obtain ⟨r, t, s', hcourse, -⟩ := supervision_completes hw hs
    exact ⟨r, _, s', hcourse⟩
  · intro hwait status
    obtain ⟨next, rfl⟩ := Process.waiting_eq_some.mp hwait
    obtain ⟨-, pid, life, state, hch, hlife, -, -⟩ := waiting_target hw hs
    -- the target ends, if it has not, and is reaped
    obtain ⟨s₁, hexits, hexited⟩ : ∃ s₁, relaySurroundings.Course anyTurn
        (⟨.live (.call .targetWait () next), tr, s⟩ : Supervision)
        ⟨.live (.call .targetWait () next), tr, s₁⟩ ∧ s₁.child = some ⟨pid, .exited⟩ := by
      cases life with
      | running => exact ⟨_, .single ⟨_, .move (.exits hch), trivial⟩, rfl⟩
      | exited => exact ⟨s, .refl, hch⟩
      | reaped => exact absurd rfl hlife
    have hwaited := hexits.tail ⟨_, .answer (@Scene.Answers.waits s₁ pid status hexited), trivial⟩
    obtain ⟨hw', hs'⟩ := staged_course hw hs hwaited
    obtain ⟨r, t, s', hcourse, hruns⟩ := supervision_completes hw' hs'
    have hmem : (⟨.targetWait, (), .ok status⟩ : Effect) ∈
      (tr ++ [⟨.targetWait, (), .ok status⟩]) ++ t := by simp
    obtain rfl := code_of_waited (hw' t r hruns) hmem
    exact ⟨_, s', hwaited.trans hcourse⟩
  · rintro r rfl
    exact over_of_ended hw hs

/-- A target that is killed by a signal ends supervision with 128 and its number. -/
theorem supervision_ends_sample : ∃ tr s, relaySurroundings.Course anyTurn
    (⟨.live (waitForTarget "docker".toList),
      [⟨.signalsRegister, (), .ok ()⟩, ⟨.targetSpawn, sampleCommand, .ok ()⟩],
      waited 4711 .running []⟩ : Supervision) ⟨.ended (.ok 143), tr, s⟩ :=
  (supervision_ends sampleCommand "docker".toList _ (course_to_wait (by decide) 4711)).2.1 rfl
    ⟨none, some 15, []⟩

end

end Iwaya
