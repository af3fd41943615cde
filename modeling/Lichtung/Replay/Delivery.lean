import Lichtung.Replay.Pairing

/-!
# What a replay delivers

An envelope waits in `pending` under its key, until the recv of the key comes or another envelope is
put in its place.  So what is handed to an actor is what was last put under the key of the recv, and
what is put there last is handed over, if the replay gets that far.

Principal results: `Machine.Reached.served` (what is handed over was put there last) and
`Machine.served_later` (what is put there last is handed over).
-/

namespace Lichtung

variable {τ α σ : Type}

namespace Machine

/-- The next step is a send to `addr`, which draws the key `n`. -/
structure Draws (m : Machine τ α σ) (n : Nat) (addr : Addr τ) : Prop where
  emits : m.emits = []
  call : ∃ msg as, m.actions = .send addr msg :: as
  key : m.driver.state.recorded.sendMid m.current m.sendIndex = n

/-- The next step hands `env` to the actor of the recorded recv `ev`. -/
structure Serves (m : Machine τ α σ) (ev : CausalEvent) (env : Envelope τ α) : Prop where
  emits : m.emits = []
  actions : m.actions = []
  names : m.names = []
  next : m.timeline.head? = some ev
  op : ev.op = .recv
  found : ∃ n, ev.parsedMid = some n ∧ m.driver.state.pending n = some env

/-- The recv `ev` of the key `n` is still to come. -/
structure Awaits (m : Machine τ α σ) (n : Nat) (ev : CausalEvent) : Prop where
  mem : ev ∈ m.timeline
  op : ev.op = .recv
  key : ev.parsedMid = some n

variable [Counter] [DecidableEq τ] (origins : List (ActorId × Boxed τ α))

/-- `m'` is reached from `m`. -/
def Later : Machine τ α σ → Machine τ α σ → Prop :=
  Relation.ReflTransGen fun m m' => m.next origins = some (.ok m')

/-- From `m` on, a send draws the key `n` while the recv `ev` is still to come. -/
def DrawnFrom (n : Nat) (ev : CausalEvent) (m : Machine τ α σ) : Prop :=
  ∃ m', Later origins m m' ∧ ev ∈ m'.timeline ∧ ∃ addr, m'.Draws n addr

/-- So does a send after the next step. -/
def Redrawn (n : Nat) (ev : CausalEvent) (m : Machine τ α σ) : Prop :=
  ∃ m', m.next origins = some (.ok m') ∧ DrawnFrom origins n ev m'

variable {origins} {sys : ReplaySystem τ α σ} {log timeline : List CausalEvent}
  {m m' : Machine τ α σ} {n : Nat} {ev : CausalEvent} {env : Envelope τ α} {addr : Addr τ}

omit [DecidableEq τ] in
/-- What the next step puts into `pending`: an origin, or what is sent. -/
theorem insertion_some (h : m.insertion origins = some env) :
    (∃ we o, m.emits.head? = some we ∧ we.parsedMid = some env.msgId ∧
      origins[m.position]? = some o ∧ env.msg = o.2) ∨
    ∃ addr, m.Draws env.msgId addr ∧ env.msg.typeId = addr.msgType := by
  unfold insertion at h
  split at h
  · rename_i he
    obtain ⟨k, hk, h⟩ := Option.bind_eq_some_iff.mp h
    obtain ⟨o, ho, rfl⟩ := Option.map_eq_some_iff.mp h
    exact .inl ⟨_, o, by rw [he]; rfl, hk, ho, rfl⟩
  · rename_i he ha
    cases h
    exact .inr ⟨_, ⟨he, ⟨_, _, ha⟩, rfl⟩, rfl⟩
  · cases h

omit [DecidableEq τ] in
theorem Draws.insertion (h : m.Draws n addr) (origins : List (ActorId × Boxed τ α)) :
    ∃ env, m.insertion origins = some env ∧ env.msgId = n ∧ env.msg.typeId = addr.msgType := by
  obtain ⟨he, ⟨msg, as, ha⟩, rfl⟩ := h
  exact ⟨_, by simp only [Machine.insertion, he, ha]; rfl, rfl, rfl⟩

/-- The timeline is walked from its head. -/
theorem next_timeline (h : m.next origins = some (.ok m')) : m'.timeline = m.timeline ∨
    ∃ ev, m.timeline = ev :: m'.timeline ∧ m.emits = [] ∧ m.actions = [] ∧ m.names = [] := by
  cases next_step h with
  | seed he => exact .inl rfl
  | act he ha => exact .inl rfl
  | start he ha hn hcall => exact .inl rfl
  | serve he ha hn ht hrecv => exact .inr ⟨_, ht, he, ha, hn⟩

theorem next_timeline_suffix (h : m.next origins = some (.ok m')) :
    m'.timeline <:+ m.timeline := by
  rcases next_timeline h with heq | ⟨ev, heq, -⟩
  · rw [heq]
  · rw [heq]
    exact List.suffix_cons ev _

theorem Later.suffix (h : Later origins m m') : m'.timeline <:+ m.timeline := by
  induction h with
  | refl => exact List.suffix_rfl
  | tail _ hnext ih => exact (next_timeline_suffix hnext).trans ih

theorem Reached.suffix (hm : Reached sys log timeline m) : m.timeline <:+ timeline := by
  induction hm with
  | entry => exact List.suffix_rfl
  | step _ hnext ih => exact (next_timeline_suffix hnext).trans ih

theorem Reached.later (hm : Reached sys log timeline m) (h : Later sys.origins m m') :
    Reached sys log timeline m' := by
  induction h with
  | refl => exact hm
  | tail _ hnext ih => exact ih.step hnext

/-- A draw at a later point of the replay is one now, or one after the next step. -/
theorem DrawnFrom.next (h : DrawnFrom origins n ev m) (hnext : m.next origins = some (.ok m')) :
    (∃ addr, m.Draws n addr) ∨ DrawnFrom origins n ev m' := by
  obtain ⟨m₂, hlater, hev, hdraws⟩ := h
  rcases Relation.ReflTransGen.cases_head hlater with rfl | ⟨m₁, hstep, hlater⟩
  · exact .inl hdraws
  · obtain rfl : m' = m₁ := Except.ok.inj (Option.some.inj (hnext.symm.trans hstep))
    exact .inr ⟨m₂, hlater, hev, hdraws⟩

/-- **What waits for a recv was put there by the last insertion under its key.**  If each insertion
fits the recvs of its key that are still to come, or is one before the last, then what is waiting
fits them, or is to be replaced. -/
theorem Reached.waiting {Fits : Envelope τ α → CausalEvent → Prop}
    (hfits : ∀ m, Reached sys log timeline m → ∀ env, m.insertion sys.origins = some env →
      ∀ ev, m.Awaits env.msgId ev → Fits env ev ∨ Redrawn sys.origins env.msgId ev m)
    (hm : Reached sys log timeline m) (hpending : m.driver.state.pending n = some env)
    (hev : m.Awaits n ev) : Fits env ev ∨ DrawnFrom sys.origins n ev m := by
  induction hm generalizing n env with
  | entry => cases hpending
  | @step m m' hm hnext ih =>
    have hev' : m.Awaits n ev := ⟨(next_timeline_suffix hnext).subset hev.mem, hev.op, hev.key⟩
    -- what was waiting before, unless this step puts something under its key
    have hkept : m.driver.state.pending n = some env → (∀ addr, ¬ m.Draws n addr) →
        Fits env ev ∨ DrawnFrom sys.origins n ev m' := by
      intro hold hnot
      rcases ih hold hev' with hfit | hdrawn
      · exact .inl hfit
      · rcases hdrawn.next hnext with ⟨addr, hdraws⟩ | hdrawn
        · exact absurd hdraws (hnot addr)
        · exact .inr hdrawn
    have hput : ∀ env', m.insertion sys.origins = some env' → m'.driver.state.pending =
        Function.update m.driver.state.pending env'.msgId (some env') →
        Fits env ev ∨ DrawnFrom sys.origins n ev m' := by
      intro env' hins hupdate
      rw [hupdate, Function.update_apply] at hpending
      split at hpending
      · rename_i hkey
        cases hpending
        subst hkey
        refine (hfits m hm env hins ev hev').imp_right ?_
        rintro ⟨m₁, hstep, hdrawn⟩
        obtain rfl : m' = m₁ := Except.ok.inj (Option.some.inj (hnext.symm.trans hstep))
        exact hdrawn
      · rename_i hkey
        refine hkept hpending fun addr hdraws => hkey ?_
        obtain ⟨env₁, hins₁, hmid, -⟩ := hdraws.insertion sys.origins
        cases hins.symm.trans hins₁
        exact hmid.symm
    cases next_stashes hnext with
    | keep hins hstashed hkeep hcount =>
      refine hkept (hkeep n env hpending) fun addr hdraws => ?_
      obtain ⟨env₁, hins₁, -⟩ := hdraws.insertion sys.origins
      cases hins.symm.trans hins₁
    | seed he hins hmid ho hstashed hupdate hcount => exact hput _ hins hupdate
    | send he hins hmid hstashed hupdate hcount => exact hput _ hins hupdate

/-- So it is with what is handed to an actor. -/
theorem Reached.served {Fits : Envelope τ α → CausalEvent → Prop} (hnd : timeline.Nodup)
    (hfits : ∀ m, Reached sys log timeline m → ∀ env, m.insertion sys.origins = some env →
      ∀ ev, m.Awaits env.msgId ev → Fits env ev ∨ Redrawn sys.origins env.msgId ev m)
    (hm : Reached sys log timeline m) (hs : m.Serves ev env) : Fits env ev := by
  obtain ⟨n, hkey, hpending⟩ := hs.found
  obtain ⟨evs, htl⟩ := List.head?_eq_some_iff.mp hs.next
  have hev : m.Awaits n ev := ⟨by rw [htl]; exact List.mem_cons_self .., hs.op, hkey⟩
  rcases hm.waiting hfits hpending hev with hfit | ⟨m₂, hlater, hmem, addr, hdraws⟩
  · exact hfit
  · exfalso
    rcases Relation.ReflTransGen.cases_head hlater with rfl | ⟨m₁, hstep, hlater⟩
    · obtain ⟨msg, as, ha⟩ := hdraws.call
      rw [hs.actions] at ha
      cases ha
    · -- the recv is served once
      have htail : m₁.timeline = evs := by
        rcases next_timeline hstep with heq | ⟨ev', heq, -⟩
        · cases next_step hstep with
          | seed he => rw [hs.emits] at he; cases he
          | act he ha => rw [hs.actions] at ha; cases ha
          | start he ha hn hcall => rw [hs.names] at hn; cases hn
          | serve he ha hn ht hrecv => rw [htl] at ht; cases ht; rfl
        · rw [htl] at heq
          cases heq
          rfl
      have hnd' := hm.suffix.sublist.nodup hnd
      have hsuffix : m₂.timeline <:+ evs := htail ▸ Later.suffix hlater
      rw [htl] at hnd'
      exact (List.nodup_cons.mp hnd').1 (hsuffix.subset hmem)

/-- A step that neither sends under the key `n` nor serves a recv of it leaves it alone. -/
theorem next_pending (hnext : m.next origins = some (.ok m')) (he : m.emits = [])
    (hdraws : ∀ addr, ¬ m.Draws n addr)
    (hserves : ∀ ev env, m.Serves ev env → ev.parsedMid ≠ some n) :
    m'.driver.state.pending n = m.driver.state.pending n := by
  cases next_change hnext with
  | quiet ds hclocks hstate => rw [hstate]
  | seed he' => rw [he] at he'; cases he'
  | compute he ha hc hclocks hstate => rw [hstate]; rfl
  | @send c addr msg env he ha hc henv hclocks heff =>
    rw [heff.pending]
    refine Function.update_of_ne (fun hkey => hdraws addr ⟨he, ?_, ?_⟩) _ _
    · obtain ⟨as, has⟩ := List.head?_eq_some_iff.mp ha
      exact ⟨msg, as, has⟩
    · rw [hkey, henv]
      rfl
  | @recv ev k c env ds he ha hn ht hop hmid henv hc hclocks hstate =>
    rw [hstate]
    refine Function.update_of_ne (fun hkey => ?_) _ _
    exact hserves ev env ⟨he, ha, hn, ht, hop, k, hmid, henv⟩ (hkey ▸ hmid)

/-- **What waits is served**, where its key is not drawn again and the replay does not panic. -/
theorem served_later {m : Machine τ α σ} (he : m.emits = [])
    (hpending : m.driver.state.pending n = some env) (hev : m.Awaits n ev)
    (hunique : ∀ f, m.Awaits n f → f = ev) (hlast : ¬ DrawnFrom origins n ev m)
    (hreturns : ∀ m', Later origins m m' → ∀ e, m'.next origins ≠ some (.error e)) :
    ∃ m', Later origins m m' ∧ m'.Serves ev env := by
  cases hn : m.next origins with
  | none =>
    have hnil := (next_none hn).2.2.2
    have hmem := hev.mem
    rw [hnil] at hmem
    cases hmem
  | some x =>
    cases x with
    | error e => exact absurd hn (hreturns m .refl e)
    | ok m₁ =>
      by_cases hs : m.Serves ev env
      · exact ⟨m, .refl, hs⟩
      · have hhead : m.emits = [] → m.actions = [] → m.names = [] → m.timeline.head? ≠ some ev :=
          fun he ha hnames ht => hs ⟨he, ha, hnames, ht, hev.op, n, hev.key, hpending⟩
        have hmem : ev ∈ m₁.timeline := by
          rcases next_timeline hn with heq | ⟨f, heq, he, ha, hnames⟩
          · exact heq ▸ hev.mem
          · have hev' := hev.mem
            rw [heq] at hev'
            rcases List.mem_cons.mp hev' with rfl | hev'
            · exact absurd (by rw [heq]; rfl) (hhead he ha hnames)
            · exact hev'
        have hpending₁ : m₁.driver.state.pending n = some env := by
          rw [next_pending hn he (fun addr hd => hlast ⟨m, .refl, hev.mem, addr, hd⟩), hpending]
          intro f env' hsf hkey
          obtain ⟨evs, htl⟩ := List.head?_eq_some_iff.mp hsf.next
          have hf : f = ev := hunique f ⟨by rw [htl]; exact List.mem_cons_self .., hsf.op, hkey⟩
          exact hhead hsf.emits hsf.actions hsf.names (hf ▸ hsf.next)
        have he₁ : m₁.emits = [] := by
          rcases next_position hn with ⟨we, hwe, -⟩ | ⟨-, he₁, -⟩
          · rw [he] at hwe
            cases hwe
          · exact he₁
        have : m₁.left < m.left := next_left hn
        obtain ⟨m', hlater, hs'⟩ := served_later he₁ hpending₁ ⟨hmem, hev.op, hev.key⟩
          (fun f hf => hunique f ⟨(next_timeline_suffix hn).subset hf.mem, hf.op, hf.key⟩)
          (fun ⟨m₂, hlater, hd⟩ => hlast ⟨m₂, .head hn hlater, hd⟩)
          (fun m₂ hlater => hreturns m₂ (.head hn hlater))
        exact ⟨m', .head hn hlater, hs'⟩
termination_by m.left
decreasing_by exact this

/-- A replay of an accepted log returns exactly when no state it reaches panics. -/
theorem replay_returns_iff {r : Replayed} (hlog : replayLog log = .ok r) :
    (∃ out, sys.replay log = .ok out) ↔
      ∀ m, Reached sys log r.timeline m → ∀ e, m.next sys.origins ≠ some (.error e) := by
  constructor
  · rintro ⟨out, hout⟩ m hm e hnext
    obtain ⟨d, -, hlog', hre, -⟩ := replay_ok hout
    rw [Except.ok.inj (hlog'.symm.trans hlog), reexecute_error_iff.mpr ⟨m, hm, hnext⟩] at hre
    cases hre
  · intro hsafe
    cases hre : sys.reexecute log r.timeline with
    | error e =>
      obtain ⟨m, hm, hnext⟩ := reexecute_error_iff.mp hre
      exact absurd hnext (hsafe m hm e)
    | ok d =>
      refine ⟨⟨r, d.state.divergences⟩, ?_⟩
      simp only [ReplaySystem.replay, ReplaySystem.replayRun, hlog, hre, bind, Except.bind, pure,
        Except.pure]

end Machine

end Lichtung
