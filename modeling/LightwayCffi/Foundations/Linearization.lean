import LightwayCffi.Foundations.ConcurrentObject
import Mathlib.Data.List.Nodup

/-!
# Linearization points

A concurrent object is *linearizable* if every run of it can be explained by a sequential one: the
calls that have returned, and some of those that are still running, can be put in an order in which
the sequential specification gives each of them the result it has, and which keeps the order of any
two calls of which one had returned before the other one started.

The proof method is to name, for each call, the step at which it takes effect. `committed` tells for
each place of the code whether the call has taken effect, and with which result; a `Simulation`
relates the shared state and the places of the threads to a state of the specification, and says
that a step either leaves that state alone or takes the call to its point.
`Simulation.linearizable` draws the conclusion, once for all objects.
-/

namespace ConcurrentObject

/-- A call that has taken effect, with the position in the log at which it started. -/
@[ext]
structure Point (T Call Result : Type*) where
  thread : T
  started : ℕ
  call : Call
  result : Result

variable {T S Call Pc Note Result State : Type*}

/-- The return of the call, as an entry of the log. -/
def Point.return (p : Point T Call Result) : Entry T Call Note Result :=
  ⟨p.thread, .returned p.started p.call p.result⟩

/-- The calls one after the other, each as the specification allows. -/
inductive Sequential (spec : State → Call → State → Result → Prop) (a₀ : State) :
    List (Point T Call Result) → State → Prop
  | nil : Sequential spec a₀ [] a₀
  | concat {points : List (Point T Call Result)} {a a' : State} {p : Point T Call Result}
    (h : Sequential spec a₀ points a) (hp : spec a p.call a' p.result) :
    Sequential spec a₀ (points ++ [p]) a'

/-- The points explain the log: each is a call of the log, no call has two, every call that has
returned has one, with its result, and where one comes before another one, the second had not
returned when the first one started. -/
structure Linearizes (log : List (Entry T Call Note Result))
    (points : List (Point T Call Result)) : Prop where
  called : ∀ p ∈ points, log[p.started]? = some ⟨p.thread, .called p.call⟩
  nodup : (points.map Point.started).Nodup
  returned : ∀ (j : ℕ) (p : Point T Call Result), log[j]? = some p.return → p ∈ points
  realTime : points.Pairwise fun p q => ∀ j : ℕ, log[j]? = some q.return → p.started < j

namespace Linearizes

variable {log : List (Entry T Call Note Result)} {points : List (Point T Call Result)}

theorem started_lt (h : Linearizes log points) {p : Point T Call Result} (hp : p ∈ points) :
    p.started < log.length :=
  (List.getElem?_eq_some_iff.1 (h.called p hp)).1

/-- Two points of one call are one point. -/
theorem eq_of_started (h : Linearizes log points) {p q : Point T Call Result} (hp : p ∈ points)
    (hq : q ∈ points) (heq : p.started = q.started) : p = q :=
  List.inj_on_of_nodup_map h.nodup hp hq heq

/-- New entries do not disturb the explanation, if the calls that return there have their points. -/
theorem append (h : Linearizes log points) {fresh : List (Entry T Call Note Result)}
    (hfresh : ∀ p : Point T Call Result, p.return ∈ fresh → p ∈ points) :
    Linearizes (log ++ fresh) points := by
  have hcases : ∀ (j : ℕ) (p : Point T Call Result), (log ++ fresh)[j]? = some p.return →
      log[j]? = some p.return ∨ log.length ≤ j ∧ p.return ∈ fresh := by
    intro j p hj
    rcases Nat.lt_or_ge j log.length with hlt | hge
    · rw [List.getElem?_append_left hlt] at hj
      exact Or.inl hj
    · rw [List.getElem?_append_right hge] at hj
      exact Or.inr ⟨hge, List.mem_of_getElem? hj⟩
  refine ⟨fun p hp => ?_, h.nodup, fun j p hj => ?_, ?_⟩
  · rw [List.getElem?_append_left (h.started_lt hp), h.called p hp]
  · rcases hcases j p hj with hold | ⟨-, hnew⟩
    · exact h.returned j p hold
    · exact hfresh p hnew
  · refine h.realTime.imp_of_mem fun {p q} hp _ hpq j hj => ?_
    rcases hcases j q hj with hold | ⟨hge, -⟩
    · exact hpq j hold
    · exact Nat.lt_of_lt_of_le (h.started_lt hp) hge

/-- A running call takes effect after all that have taken effect so far. -/
theorem concat (h : Linearizes log points) {p : Point T Call Result} {pc : Pc}
    (hrunning : InLog p.thread log (.running p.started p.call pc)) (hlog : WellFormed log)
    (hfresh : ∀ q ∈ points, q.started ≠ p.started) : Linearizes log (points ++ [p]) := by
  obtain ⟨hcall, hafter⟩ := hrunning
  -- the call has not returned yet
  have hopen : ∀ j : ℕ, log[j]? ≠ some p.return := by
    intro j hj
    obtain ⟨hlt, -, -⟩ := hlog hj
    obtain ⟨n, hn⟩ := hafter j _ hlt hj rfl
    cases hn
  refine ⟨fun q hq => ?_, ?_, fun j q hj => List.mem_append_left _ (h.returned j q hj), ?_⟩
  · rcases List.mem_append.1 hq with hq | hq
    · exact h.called q hq
    · rw [List.mem_singleton.1 hq, hcall]
  · rw [List.map_append, List.map_singleton]
    refine List.nodup_append.2 ⟨h.nodup, List.nodup_singleton _, ?_⟩
    intro _ hstarted _ hp heq
    obtain ⟨q, hq, rfl⟩ := List.mem_map.1 hstarted
    exact hfresh q hq (heq.trans (List.mem_singleton.1 hp))
  · refine List.pairwise_append.2 ⟨h.realTime, List.pairwise_singleton _ _, fun q _ p' hp' => ?_⟩
    rw [List.mem_singleton.1 hp']
    exact fun j hj => absurd hj (hopen j)

end Linearizes

/-! ## Simulations -/

/-- The result that a move gives, or that it leaves the call committed to. -/
def Move.outcome (committed : Pc → Option Result) : Move Pc Result → Option Result
  | .goto pc => committed pc
  | .ret r => some r

/-- Where a step leaves its thread. -/
def Move.activity (started : ℕ) (call : Call) : Move Pc Result → Activity Call Pc
  | .goto pc => .running started call pc
  | .ret _ => .idle

/-- What a step of a call at `pc` does to the state of the specification: nothing, or the call
takes effect. -/
inductive Advances (spec : State → Call → State → Result → Prop) (committed : Pc → Option Result)
    (call : Call) (pc : Pc) (a : State) (mv : Move Pc Result) : State → Prop
  | quiet (h : mv.outcome committed = committed pc) : Advances spec committed call pc a mv a
  | point {a' : State} {r : Result} (hbefore : committed pc = none)
    (hafter : mv.outcome committed = some r) (hspec : spec a call a' r) :
    Advances spec committed call pc a mv a'

variable [DecidableEq T]

/-- Every call has one point, at which it acts as the specification says: `R` relates the shared
state and what the threads are doing to a state of the specification. -/
structure Simulation (O : Object T S Call Pc Note Result) (s₀ : S)
    (spec : State → Call → State → Result → Prop) (committed : Pc → Option Result)
    (R : S → (T → Activity Call Pc) → State → Prop) : Prop where
  entry : ∀ call, committed (O.entry call) = none
  call : ∀ {c : Config T S Call Pc Note Result} {a t}, R c.shared c.threads a →
    c.threads t = .idle → ∀ started call,
      R c.shared (Function.update c.threads t (.running started call (O.entry call))) a
  step : ∀ {c : Config T S Call Pc Note Result} {a t started call pc s' mv ns},
    Reachable O s₀ c → R c.shared c.threads a → c.threads t = .running started call pc →
    O.step t call c.shared pc = some (s', mv, ns) →
      ∃ a', Advances spec committed call pc a mv a' ∧
        R s' (Function.update c.threads t (mv.activity started call)) a'

/-- The points so far: those of the calls that have returned, and those of the running calls that
have taken effect. -/
structure Explains (spec : State → Call → State → Result → Prop) (committed : Pc → Option Result)
    (a₀ : State) (log : List (Entry T Call Note Result)) (threads : T → Activity Call Pc)
    (points : List (Point T Call Result)) (a : State) : Prop where
  sequential : Sequential spec a₀ points a
  linearizes : Linearizes log points
  committed_iff : ∀ {t started call pc}, threads t = .running started call pc → ∀ r,
    committed pc = some r ↔ ⟨t, started, call, r⟩ ∈ points

variable {O : Object T S Call Pc Note Result} {s₀ : S} {a₀ : State}
  {spec : State → Call → State → Result → Prop} {committed : Pc → Option Result}
  {R : S → (T → Activity Call Pc) → State → Prop}

section Advance

variable {log : List (Entry T Call Note Result)} {threads : T → Activity Call Pc}
  {points : List (Point T Call Result)} {a a' : State} {t : T} {started : ℕ} {call : Call} {pc : Pc}
  {mv : Move Pc Result}

omit [DecidableEq T] in
/-- A running call that has not taken effect has no point. -/
theorem Explains.started_ne (h : Explains spec committed a₀ log threads points a)
    (ht : threads t = .running started call pc) (hlog : InLog t log (.running started call pc))
    (hbefore : committed pc = none) {p : Point T Call Result} (hp : p ∈ points) :
    p.started ≠ started := by
  rintro rfl
  have hcalled := h.linearizes.called p hp
  rw [hlog.1] at hcalled
  cases hcalled
  exact absurd ((h.committed_iff ht p.result).2 hp) (by simp [hbefore])

omit [DecidableEq T] in
/-- A step extends the points by that of its call, or by nothing. -/
theorem Explains.advance (h : Explains spec committed a₀ log threads points a)
    (ht : threads t = .running started call pc) (hlog : InLog t log (.running started call pc))
    (hwf : WellFormed log) (hadv : Advances spec committed call pc a mv a') :
    ∃ points', Sequential spec a₀ points' a' ∧ Linearizes log points' ∧
      (∀ r, mv.outcome committed = some r ↔ ⟨t, started, call, r⟩ ∈ points') ∧
      ∀ q : Point T Call Result, q.thread ≠ t → (q ∈ points' ↔ q ∈ points) := by
  cases hadv with
  | quiet hquiet =>
    refine ⟨points, h.sequential, h.linearizes, fun r => ?_, fun _ _ => Iff.rfl⟩
    rw [hquiet, h.committed_iff ht]
  | @point _ r hbefore hafter hspec =>
    have hne : ∀ q ∈ points, q.started ≠ started := fun q hq => h.started_ne ht hlog hbefore hq
    refine ⟨points ++ [⟨t, started, call, r⟩], h.sequential.concat hspec,
      h.linearizes.concat hlog hwf hne, fun r' => ?_, fun q hq => ?_⟩
    · rw [hafter, List.mem_append, List.mem_singleton]
      constructor
      · rintro ⟨rfl⟩
        exact Or.inr rfl
      · rintro (hold | hnew)
        · exact absurd rfl (hne _ hold)
        · rw [(Point.mk.inj hnew).2.2.2]
    · rw [List.mem_append, List.mem_singleton, or_iff_left]
      rintro rfl
      exact hq rfl

end Advance

omit [DecidableEq T] in
/-- A return entry is not a note. -/
theorem Point.return_notMem_noteEntries (p : Point T Call Result) (t : T) (ns : List Note) :
    p.return ∉ (noteEntries t ns : List (Entry T Call Note Result)) := by
  intro hmem
  obtain ⟨n, -, hn⟩ := List.mem_map.1 hmem
  cases hn

/-- The points of `t` and those of the other threads, together again. -/
theorem Explains.update {log log' : List (Entry T Call Note Result)}
    {threads : T → Activity Call Pc} {points points' : List (Point T Call Result)} {a a' : State}
    (h : Explains spec committed a₀ log threads points a) {t : T} {b : Activity Call Pc}
    (hseq : Sequential spec a₀ points' a') (hlin : Linearizes log' points')
    (hself : ∀ {started call pc}, b = .running started call pc → ∀ r,
      committed pc = some r ↔ ⟨t, started, call, r⟩ ∈ points')
    (hothers : ∀ q : Point T Call Result, q.thread ≠ t → (q ∈ points' ↔ q ∈ points)) :
    Explains spec committed a₀ log' (Function.update threads t b) points' a' := by
  refine ⟨hseq, hlin, fun {u started call pc} hu r => ?_⟩
  rcases eq_or_ne u t with rfl | hne
  · rw [Function.update_self] at hu
    exact hself hu r
  · rw [Function.update_of_ne hne] at hu
    rw [h.committed_iff hu, hothers ⟨u, started, call, r⟩ hne]

/-- **The points follow every step.** -/
theorem Simulation.explains_step (h : Simulation O s₀ spec committed R)
    {c c' : Config T S Call Pc Note Result} (hreach : Reachable O s₀ c) (hstep : Step O c c')
    {points : List (Point T Call Result)} {a : State}
    (hpoints : Explains spec committed a₀ c.log c.threads points a)
    (hrel : R c.shared c.threads a) :
    ∃ points' a', Explains spec committed a₀ c'.log c'.threads points' a' ∧
      R c'.shared c'.threads a' := by
  obtain ⟨t, hturn⟩ := hstep
  have hlog := hreach.inLog t
  generalize ht : c.threads t = b at hturn hlog
  cases hturn with
  | call _ call =>
    refine ⟨points, a, ?_, h.call hrel ht _ call⟩
    have hlin : Linearizes (c.log ++ [⟨t, .called call⟩]) points :=
      hpoints.linearizes.append fun p hp => by
        cases List.mem_singleton.1 hp
    refine hpoints.update hpoints.sequential hlin ?_ fun _ _ => Iff.rfl
    -- a call that has just started has no point, since its place in the log is new
    rintro _ _ _ ⟨⟩ r
    rw [h.entry call]
    refine ⟨nofun, fun hp => ?_⟩
    exact absurd (hpoints.linearizes.started_lt hp) (Nat.lt_irrefl _)
  | @goto _ _ started call pc pc' ns hstep =>
    obtain ⟨a', hadv, hrel'⟩ := h.step hreach hrel ht hstep
    obtain ⟨points', hseq, hlin, hself, hothers⟩ :=
      hpoints.advance ht hlog hreach.wellFormed hadv
    refine ⟨points', a', hpoints.update hseq ?_ ?_ hothers, hrel'⟩
    · exact hlin.append fun p hp => absurd hp (p.return_notMem_noteEntries t ns)
    · rintro _ _ _ ⟨⟩
      exact hself
  | @ret _ _ started call pc r ns hstep =>
    obtain ⟨a', hadv, hrel'⟩ := h.step hreach hrel ht hstep
    obtain ⟨points', hseq, hlin, hself, hothers⟩ :=
      hpoints.advance ht hlog hreach.wellFormed hadv
    refine ⟨points', a', hpoints.update hseq ?_ nofun hothers, hrel'⟩
    rw [List.append_assoc]
    refine hlin.append fun p hp => ?_
    rcases List.mem_append.1 hp with hp | hp
    · exact absurd hp (p.return_notMem_noteEntries t ns)
    · cases p
      cases List.mem_singleton.1 hp
      exact (hself _).1 rfl

/-- **An object with a simulation is linearizable**, and it ends related to where the sequential
run ends. -/
theorem Simulation.linearizable (h : Simulation O s₀ spec committed R)
    {c : Config T S Call Pc Note Result} (hreach : Reachable O s₀ c)
    (hinit : R s₀ (fun _ => .idle) a₀) :
    ∃ points a, Sequential spec a₀ points a ∧ Linearizes c.log points ∧
      R c.shared c.threads a := by
  have hexplains : ∃ points a, Explains spec committed a₀ c.log c.threads points a ∧
      R c.shared c.threads a := by
    induction hreach with
    | refl =>
      refine ⟨[], a₀, ⟨.nil, ⟨?_, ?_, ?_, ?_⟩, ?_⟩, hinit⟩
      · exact fun p hp => absurd hp List.not_mem_nil
      · exact List.nodup_nil
      · exact fun j p hj => absurd hj (by simp [Config.init])
      · exact .nil
      · exact fun hrun => nomatch hrun
    | tail hreach hstep ih =>
      obtain ⟨points, a, hpoints, hrel⟩ := ih
      exact h.explains_step hreach hstep hpoints hrel
  obtain ⟨points, a, hpoints, hrel⟩ := hexplains
  exact ⟨points, a, hpoints.sequential, hpoints.linearizes, hrel⟩

/-! ## The calls that have returned -/

section Returns

omit [DecidableEq T]

/-- The call that an entry is the return of. -/
def Entry.point (e : Entry T Call Note Result) : Option (Point T Call Result) :=
  match e.event with
  | .returned started c r => some ⟨e.thread, started, c, r⟩
  | _ => none

theorem Entry.point_eq_some {e : Entry T Call Note Result} {p : Point T Call Result} :
    e.point = some p ↔ e = p.return := by
  obtain ⟨t, ev⟩ := e
  cases ev <;> simp [Entry.point, Point.return, Point.ext_iff]

/-- The calls that have returned, in the order of their returns. -/
def answeredCalls (log : List (Entry T Call Note Result)) : List (Point T Call Result) :=
  log.filterMap Entry.point

theorem mem_answeredCalls {log : List (Entry T Call Note Result)} {p : Point T Call Result} :
    p ∈ answeredCalls log ↔ ∃ j : ℕ, log[j]? = some p.return := by
  rw [answeredCalls, List.mem_filterMap]
  constructor
  · rintro ⟨e, he, hp⟩
    rw [Entry.point_eq_some.1 hp] at he
    exact List.mem_iff_getElem?.1 he
  · rintro ⟨j, hj⟩
    exact ⟨_, List.mem_of_getElem? hj, Entry.point_eq_some.2 rfl⟩

/-- No call returns twice. -/
theorem WellFormed.nodup_answeredCalls {log : List (Entry T Call Note Result)}
    (h : WellFormed log) : (answeredCalls log).Nodup := by
  refine List.pairwise_filterMap.2 (List.pairwise_iff_getElem.2 ?_)
  intro i j hi hj hij p hp q hq heq
  have hi' : log[i]? = some p.return := by
    rw [List.getElem?_eq_getElem hi, Entry.point_eq_some.1 hp]
  have hj' : log[j]? = some q.return := by
    rw [List.getElem?_eq_getElem hj, Entry.point_eq_some.1 hq]
  exact h.started_ne hi' hj' hij (congrArg Point.started heq)

end Returns

omit [DecidableEq T] in
/-- A call in the log was there before the turn, or it is what the turn begins. -/
theorem Turn.called_cases {t : T} {s s' : S} {log log' : List (Entry T Call Note Result)}
    {a a' : Activity Call Pc} (h : Turn O t s log a s' log' a') {i : ℕ} {call : Call}
    (hi : log'[i]? = some ⟨t, .called call⟩) :
    log[i]? = some ⟨t, .called call⟩ ∨ a' = .running i call (O.entry call) := by
  have hnew : ∀ {fresh : List (Entry T Call Note Result)},
      (log ++ fresh)[i]? = some ⟨t, .called call⟩ → log[i]? = some ⟨t, .called call⟩ ∨
        fresh[i - log.length]? = some ⟨t, .called call⟩ ∧ log.length ≤ i := by
    intro fresh hi
    rcases Nat.lt_or_ge i log.length with hlt | hge
    · rw [List.getElem?_append_left hlt] at hi
      exact Or.inl hi
    · rw [List.getElem?_append_right hge] at hi
      exact Or.inr ⟨hi, hge⟩
  cases h with
  | call _ c =>
    refine (hnew hi).imp_right ?_
    rintro ⟨hfresh, hge⟩
    obtain ⟨hlt, heq⟩ := List.getElem?_eq_some_iff.1 hfresh
    rw [List.length_singleton] at hlt
    rw [List.getElem_singleton] at heq
    cases heq
    rw [show log.length = i by omega]
  | @goto _ _ _ _ _ _ ns _ =>
    refine (hnew hi).imp_right ?_
    rintro ⟨hfresh, -⟩
    obtain ⟨n, -, hn⟩ := List.mem_map.1 (List.mem_of_getElem? hfresh)
    cases hn
  | @ret _ _ _ _ _ _ ns _ =>
    rw [List.append_assoc] at hi
    refine (hnew hi).imp_right ?_
    rintro ⟨hfresh, -⟩
    rcases List.mem_append.1 (List.mem_of_getElem? hfresh) with hmem | hmem
    · obtain ⟨n, -, hn⟩ := List.mem_map.1 hmem
      cases hn
    · cases List.mem_singleton.1 hmem

omit [DecidableEq T] in
/-- A call that has started has returned, or it is what its thread is doing. -/
theorem outline_answered (O : Object T S Call Pc Note Result) :
    Outline O (fun _ _ => True) fun t _ log a => ∀ (i : ℕ) (call : Call),
      log[i]? = some ⟨t, .called call⟩ →
        (∃ (j : ℕ) (r : Result), log[j]? = some ⟨t, .returned i call r⟩) ∨
          ∃ pc, a = .running i call pc where
  own {t s log a s' log' a'} hturn _ hP := by
    refine ⟨trivial, fun i call hi => ?_⟩
    rcases hturn.called_cases hi with hold | hnew
    · rcases hP i call hold with ⟨j, r, hj⟩ | ⟨pc, rfl⟩
      · exact Or.inl ⟨j, r, hturn.getElem?_mono hj⟩
      · cases hturn with
        | goto h => exact Or.inr ⟨_, rfl⟩
        | ret h => exact Or.inl ⟨_, _, List.getElem?_concat_length⟩
    · exact Or.inr ⟨_, hnew⟩
  others h _ _ u b hne hb i call hi := by
    refine (hb i call (h.getElem?_of_ne hi hne)).imp_left ?_
    rintro ⟨j, r, hj⟩
    exact ⟨j, r, h.getElem?_mono hj⟩

/-- When all threads are idle, the points are the calls that have returned. -/
theorem Linearizes.perm_answeredCalls {c : Config T S Call Pc Note Result}
    (hreach : Reachable O s₀ c) {points : List (Point T Call Result)} (h : Linearizes c.log points)
    (hidle : ∀ t, c.threads t = .idle) : points.Perm (answeredCalls c.log) := by
  have hnodup := hreach.wellFormed.nodup_answeredCalls
  refine (List.perm_ext_iff_of_nodup h.nodup.of_map hnodup).2 fun p => ?_
  rw [mem_answeredCalls]
  constructor
  · intro hp
    have hanswered := ((outline_answered O).run hreach trivial (by simp)).2 p.thread p.started
      p.call (h.called p hp)
    rcases hanswered with ⟨j, r, hj⟩ | ⟨pc, hpc⟩
    · have heq := h.eq_of_started (h.returned j ⟨p.thread, p.started, p.call, r⟩ hj) hp rfl
      exact ⟨j, heq ▸ hj⟩
    · rw [hidle] at hpc
      cases hpc
  · rintro ⟨j, hj⟩
    exact h.returned j p hj

end ConcurrentObject
