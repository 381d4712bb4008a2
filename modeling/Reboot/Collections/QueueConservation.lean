import Reboot.Collections.Queue

/-!
# What a queue never does

`queue_fifo` is about the runs of a queue in which keys come in order and no response is lost. This
file is about every other run as well: clocks may go back between processes, transactions may commit
in any order, workflows may fail at any point and the process may crash. Whatever happens, an item
that was enqueued is in the queue or in one of the takes, as often as it was enqueued, and no take is
answered twice (`queue_conserved`). So no item is delivered twice, and none leaves the queue but by
the `try_dequeue` that took it.

Mirroring notes:
- What is assumed of the keys is what `uuid7` is for: an `enqueue` commits under keys that differ
  from each other and from those in the queue. Within one process they do (`reach_freshKeys`).
- A response that says that there is nothing can still answer a take, of an item in which no field
  is set.
-/

namespace Reboot.Queues

open Reboot.Lib Reboot.Collections

variable {V A : Type} [DecidableEq V] [DecidableEq A]

/-- The keys under which an `enqueue` commits are new, and different. -/
def FreshKeys (s : State V A) : Action V A → Prop
  | .enqueueCommit i => ∀ entries ∈ s.enqueues[i]?, (entries.map Prod.fst).Nodup ∧
      ∀ entry ∈ entries, ∀ e ∈ s.map.entries, e.1 ≠ entry.1
  | _ => True

instance (s : State V A) (a : Action V A) : Decidable (FreshKeys s a) := by
  unfold FreshKeys
  split <;> infer_instance

/-- A response has the items of its take, or says that there are none. -/
def DequeueResponse.Answers (response : DequeueResponse V A) (items : List (Item V A)) : Prop :=
  response = .none ∨ response.contents = items

/-- Each of these responses answers a take of its own. -/
structure Answered (takes : List (List (Item V A))) (responses : List (Nat × DequeueResponse V A)) :
    Prop where
  once : (responses.map Prod.fst).Nodup
  taken : ∀ p ∈ responses, ∃ items, takes[p.1]? = some items ∧ p.2.Answers items

/-- Items are neither lost nor doubled in the queue, and no take is answered twice. -/
structure State.Conserved (s : State V A) : Prop where
  kept : s.accepted.Perm (s.takes.flatten ++ s.map.entries.map Prod.snd)
  answered : Answered s.takes (s.received ++ s.held)

/-! ## Keys -/

omit [DecidableEq V] [DecidableEq A] in
theorem putAssoc_fresh {k : Nat} {v : Item V A} {l : List (Nat × Item V A)}
    (h : ∀ e ∈ l, e.1 ≠ k) : (putAssoc k v l).Perm ((k, v) :: l) := by
  induction l with
  | nil => exact .refl _
  | cons e l ih =>
    have hne : k ≠ e.1 := (h e List.mem_cons_self).symm
    unfold putAssoc
    rw [if_neg hne]
    split
    · exact .refl _
    · exact (List.Perm.cons e (ih fun e' he' => h e' (List.mem_cons_of_mem _ he'))).trans
        (.swap _ _ _)

omit [DecidableEq V] [DecidableEq A] in
/-- Entries with fresh keys come on top of what is in the map. -/
theorem foldl_put_perm {entries : List (Nat × Item V A)} {map : SortedAssoc Nat (Item V A)}
    (hnodup : (entries.map Prod.fst).Nodup)
    (hfresh : ∀ entry ∈ entries, ∀ e ∈ map.entries, e.1 ≠ entry.1) :
    (entries.foldl (fun map entry => map.put entry.1 entry.2) map).entries.Perm
      (map.entries ++ entries) := by
  induction entries generalizing map with
  | nil => simp
  | cons entry entries ih =>
    obtain ⟨hnew, hnodup⟩ := List.nodup_cons.mp hnodup
    have hput : (map.put entry.1 entry.2).entries.Perm (entry :: map.entries) :=
      putAssoc_fresh (hfresh entry List.mem_cons_self)
    refine (ih hnodup fun entry' h' e he => ?_).trans ?_
    · rcases List.mem_cons.mp (hput.mem_iff.mp he) with rfl | he
      · rintro heq
        exact hnew (heq ▸ List.mem_map_of_mem h')
      · exact hfresh entry' (List.mem_cons_of_mem _ h') e he
    · exact (hput.append_right entries).trans List.perm_middle.symm

/-! ## Responses -/

theorem Answered.subperm {takes : List (List (Item V A))} {responses responses' : List _}
    (h : Answered takes responses) (hsub : responses'.Subperm responses) :
    Answered takes responses' := by
  obtain ⟨l, hperm, hsub⟩ := hsub
  refine ⟨(hperm.map Prod.fst).nodup_iff.mp ((hsub.map Prod.fst).nodup h.once), fun p hp => ?_⟩
  exact h.taken p (hsub.subset (hperm.mem_iff.mpr hp))

/-- One more take, and at most its response. -/
theorem Answered.take {takes : List (List (Item V A))} {responses : List _}
    (h : Answered takes responses) {items : List (Item V A)} {response : DequeueResponse V A}
    (hanswers : response.Answers items) :
    Answered (takes ++ [items]) (responses ++ [(takes.length, response)]) := by
  have hlt : ∀ p ∈ responses, p.1 < takes.length := fun p hp => by
    obtain ⟨items, hitems, -⟩ := h.taken p hp
    exact (List.getElem?_eq_some_iff.mp hitems).1
  refine ⟨?_, fun p hp => ?_⟩
  · rw [List.map_append, List.nodup_append]
    refine ⟨h.once, List.nodup_singleton _, fun n hn m hm => ?_⟩
    obtain ⟨p, hp, rfl⟩ := List.mem_map.mp hn
    rw [List.mem_singleton.mp hm]
    exact (hlt p hp).ne
  · rcases List.mem_append.mp hp with hp | hp
    · rw [List.getElem?_append_left (hlt p hp)]
      exact h.taken p hp
    · rw [List.mem_singleton.mp hp]
      exact ⟨items, by simp, hanswers⟩

theorem tryDequeue_answers {constructed : Bool} {map map' : SortedAssoc Nat (Item V A)}
    {request : DequeueRequest} {items : List (Item V A)} {response : DequeueResponse V A}
    (h : tryDequeue constructed map request = some (items, response, map')) :
    response.Answers items := by
  refine or_iff_not_imp_left.mpr fun hne => ?_
  unfold tryDequeue at h
  split at h
  · cases h
    exact absurd rfl hne
  · split at h
    · cases h
    · simp only at h
      split at h
      · cases h
        exact absurd rfl hne
      next hlength =>
        split at h
        · cases h
          rw [DequeueResponse.contents, if_neg hne, if_neg]
          simpa [List.length_eq_zero_iff] using hlength
        · split at h
          next item hone =>
            cases h
            rw [DequeueResponse.contents, if_neg hne, if_pos rfl]
            exact hone.symm
          · cases h

omit [DecidableEq V] [DecidableEq A] in
/-- A workflow that holds no more than it did. -/
theorem held_setPhase_subperm {s : State V A} {i : Nat} {d : Dequeue V A} {phase : Phase V A}
    (h : s.dequeues[i]? = some d) (hsub : phase.held.Sublist d.phase.held) :
    (s.setPhase i d phase).held.Subperm s.held := by
  obtain ⟨rest, hold, hnew⟩ := held_setPhase h
  exact (hnew phase).subperm.trans ((hsub.append_right rest).subperm.trans hold.symm.subperm)

omit [DecidableEq V] [DecidableEq A] in
theorem held_failed_sublist (phase : Phase V A) : phase.failed.held.Sublist phase.held := by
  cases phase <;> first | exact List.Sublist.refl _ | exact List.nil_sublist _

omit [DecidableEq V] [DecidableEq A] in
theorem held_crash (dequeues : List (Dequeue V A)) :
    ((dequeues.map fun d => { d with phase := d.phase.failed }).flatMap fun d =>
      d.phase.held).Sublist (dequeues.flatMap fun d => d.phase.held) := by
  induction dequeues with
  | nil => exact List.Sublist.refl _
  | cons d dequeues ih =>
    rw [List.map_cons, List.flatMap_cons, List.flatMap_cons]
    exact (held_failed_sublist d.phase).append ih

/-! ## One action -/

theorem State.Conserved.fresh : (State.fresh : State V A).Conserved := by
  refine ⟨by simp [State.fresh, SortedAssoc.empty], ⟨?_, ?_⟩⟩ <;> simp [State.fresh, State.held]

/-- A workflow goes on with no more than it held. -/
theorem State.Conserved.goOn {s : State V A} (h : s.Conserved) {i : Nat} {d : Dequeue V A}
    {phase : Phase V A} (hd : s.dequeues[i]? = some d) (hsub : phase.held.Sublist d.phase.held) :
    (s.setPhase i d phase).Conserved :=
  ⟨h.kept, h.answered.subperm
    ((List.subperm_append_left s.received).mpr (held_setPhase_subperm hd hsub))⟩

/-- The items of a take leave the map. -/
theorem State.Conserved.kept_take {s : State V A} (h : s.Conserved) {request : DequeueRequest}
    {items : List (Item V A)} {response : DequeueResponse V A} {map : SortedAssoc Nat (Item V A)}
    (hs : tryDequeue s.constructed s.map request = some (items, response, map)) :
    s.accepted.Perm ((s.takes ++ [items]).flatten ++ map.entries.map Prod.snd) := by
  rw [List.flatten_append, List.append_assoc]
  simpa [tryDequeue_order hs] using h.kept

theorem State.Conserved.attempt {s : State V A} (h : s.Conserved) {i : Nat} {d : Dequeue V A}
    (hd : s.dequeues[i]? = some d) (hphase : d.phase = .trying) {items : List (Item V A)}
    {response : DequeueResponse V A} {map : SortedAssoc Nat (Item V A)}
    (hs : Queues.tryDequeue s.constructed s.map d.request = some (items, response, map)) :
    (State.setPhase { s with map := map, takes := s.takes ++ [items] } i d
      (if response = .none then .checking else .got s.takes.length response)).Conserved := by
  refine ⟨h.kept_take hs, (h.answered.take (tryDequeue_answers hs)).subperm ?_⟩
  obtain ⟨rest, hold, hnew⟩ := held_setPhase (s := { s with
    map := map, takes := s.takes ++ [items] }) hd
  rw [hphase] at hold
  have hsub : (if response = .none then Phase.checking else .got s.takes.length response).held.Sublist
      [(s.takes.length, response)] := by
    split
    · exact List.nil_sublist _
    · exact List.Sublist.refl _
  show (s.received ++ _).Subperm (s.received ++ s.held ++ _)
  rw [List.append_assoc]
  refine (List.subperm_append_left s.received).mpr ((hnew _).subperm.trans ?_)
  exact (hsub.append_right rest).subperm.trans
    ((List.perm_append_comm).trans (hold.symm.append_right _)).subperm

theorem State.Conserved.finish {s : State V A} (h : s.Conserved) {i : Nat} {d : Dequeue V A}
    {take : Nat} {response : DequeueResponse V A} (hd : s.dequeues[i]? = some d)
    (hphase : d.phase = .stored take response) :
    (State.setPhase { s with received := s.received ++ [(take, response)] } i d
      .returned).Conserved := by
  refine ⟨h.kept, h.answered.subperm ?_⟩
  obtain ⟨rest, hold, hnew⟩ := held_setPhase (s := { s with
    received := s.received ++ [(take, response)] }) hd
  rw [hphase] at hold
  have hreturned : (State.setPhase { s with
      received := s.received ++ [(take, response)] } i d .returned).held.Perm rest := hnew .returned
  show (s.received ++ [(take, response)] ++ _).Subperm (s.received ++ s.held)
  rw [List.append_assoc]
  refine (List.subperm_append_left s.received).mpr ?_
  exact ((hreturned.append_left [(take, response)]).trans hold.symm).subperm

theorem State.Conserved.step {s s' : State V A} {a : Action V A} (h : s.Conserved)
    (hok : FreshKeys s a) (hs : Queues.step s a = some s') : s'.Conserved := by
  cases a with
  | enqueueStart request draws =>
    unfold Queues.step at hs
    dsimp only at hs
    split at hs
    · cases hs
      exact h
    · split at hs
      · cases hs
        exact ⟨h.kept, h.answered⟩
      · cases hs
  | enqueueCommit i =>
    unfold Queues.step at hs
    dsimp only at hs
    split at hs
    · cases hs
    next entries hentries =>
      cases hs
      obtain ⟨hnodup, hfresh⟩ := hok entries hentries
      refine ⟨?_, h.answered⟩
      have hput := (foldl_put_perm hnodup hfresh).map Prod.snd
      rw [List.map_append] at hput
      refine (h.kept.append_right _).trans ?_
      rw [List.append_assoc]
      exact hput.symm.append_left _
  | enqueueAbort i =>
    unfold Queues.step at hs
    dsimp only at hs
    split at hs
    · cases hs
      exact ⟨h.kept, h.answered⟩
    · cases hs
  | tryDequeue request =>
    unfold Queues.step at hs
    dsimp only at hs
    split at hs
    · cases hs
      exact h
    · cases hs
      exact h
    next items response map _ htry =>
      cases hs
      refine ⟨h.kept_take htry, (h.answered.take (tryDequeue_answers htry)).subperm ?_⟩
      show (s.received ++ [_] ++ s.held).Subperm _
      rw [List.append_assoc, List.append_assoc]
      exact (List.perm_append_comm.append_left _).subperm
  | dequeue request =>
    cases hs
    refine ⟨h.kept, h.answered.subperm (List.Perm.subperm ?_)⟩
    simp [State.held, Phase.held]
  | check i =>
    unfold Queues.step at hs
    dsimp only at hs
    split at hs
    next d hd =>
      split at hs
      next hphase =>
        split at hs
        · cases hs
          exact h.goOn hd (List.nil_sublist _)
        · cases hs
          exact h
      · cases hs
    · cases hs
  | attempt i =>
    unfold Queues.step at hs
    dsimp only at hs
    split at hs
    next d hd =>
      split at hs
      next hphase =>
        split at hs
        · cases hs
          exact h.goOn hd (List.nil_sublist _)
        · cases hs
          exact h.goOn hd (List.nil_sublist _)
        next items response map _ htry =>
          cases hs
          exact h.attempt hd hphase htry
      · cases hs
    · cases hs
  | store i =>
    unfold Queues.step at hs
    dsimp only at hs
    split at hs
    next d hd =>
      split at hs
      next take response hphase =>
        cases hs
        exact h.goOn hd (by rw [hphase]; exact List.Sublist.refl _)
      · cases hs
    · cases hs
  | finish i =>
    unfold Queues.step at hs
    dsimp only at hs
    split at hs
    next d hd =>
      split at hs
      next take response hphase =>
        cases hs
        exact h.finish hd hphase
      · cases hs
    · cases hs
  | fail i =>
    unfold Queues.step at hs
    dsimp only at hs
    split at hs
    next d hd =>
      cases hs
      exact h.goOn hd (held_failed_sublist d.phase)
    · cases hs
  | crash =>
    cases hs
    exact ⟨h.kept, h.answered.subperm
      ((List.subperm_append_left s.received).mpr (held_crash s.dequeues).subperm)⟩

/-! ## Keys of one process -/

/-- The process does not end, and its timestamps have 48 bits. -/
def OneProcess (s : State V A) : Action V A → Prop
  | .enqueueStart _ draws => (∀ draw ∈ draws, draw.1 / 1000000 < 2 ^ 48) ∧
      ∀ t ∈ autoTimestamps s.globals (draws.map Draw.call), t < 2 ^ 48
  | .crash => False
  | _ => True

/-- No key is later than the last one that was drawn. -/
def Drawn (globals : Globals) (keys : List Nat) : Prop :=
  ∀ key ∈ keys, ∃ t counter tail, globals = ⟨some t, counter⟩ ∧ t < 2 ^ 48 ∧
    key ≤ uuidInt t counter tail

/-- A key that is drawn is later than all before it. -/
theorem Drawn.lt {globals : Globals} {keys : List Nat} (h : Drawn globals keys) {draw : Draw}
    (hclock : draw.1 / 1000000 < 2 ^ 48)
    (ht : (autoFields globals draw.1 draw.2.1 draw.2.2).1 < 2 ^ 48) :
    ∀ key ∈ keys, key < (uuid7 globals draw.call).2 := by
  intro key hkey
  obtain ⟨t, counter, tail, rfl, hlast, hle⟩ := h key hkey
  have hcalls : ∀ c ∈ [draw.call], c.ClockInRange := fun c hc => by
    rw [List.mem_singleton.mp hc]
    exact hclock
  have hchain := (@chain_autoUuids_iff [draw.call] t counter tail hlast hcalls).mpr (by
    intro t' ht'
    rw [List.mem_singleton.mp ht']
    exact ht)
  exact lt_of_le_of_lt hle (List.isChain_pair.mp hchain)

/-- The keys that a request draws are new, and later than all before them. -/
theorem Drawn.drawKeys {globals : Globals} {keys : List Nat} {draws : List Draw}
    (h : Drawn globals keys) (hnodup : keys.Nodup)
    (hclock : ∀ draw ∈ draws, draw.1 / 1000000 < 2 ^ 48)
    (hdraws : ∀ t ∈ autoTimestamps globals (draws.map Draw.call), t < 2 ^ 48) :
    Drawn (drawKeys globals draws).1 (keys ++ (drawKeys globals draws).2) ∧
      (keys ++ (drawKeys globals draws).2).Nodup := by
  induction draws generalizing globals keys with
  | nil => simpa [Queues.drawKeys] using ⟨h, hnodup⟩
  | cons draw draws ih =>
    rw [List.forall_mem_cons] at hclock
    obtain ⟨ht, hdraws⟩ := List.forall_mem_cons.mp (show ∀ t ∈
      (autoFields globals draw.1 draw.2.1 draw.2.2).1 ::
        autoTimestamps (uuid7 globals draw.call).1 (draws.map Draw.call), t < 2 ^ 48 from hdraws)
    have hlt := h.lt hclock.1 ht
    have hrest := @ih (uuid7 globals draw.call).1 (keys ++ [(uuid7 globals draw.call).2]) ?_ ?_
      hclock.2 hdraws
    · rwa [List.append_assoc] at hrest
    · -- the key that was drawn is the last one now
      intro key hkey
      refine ⟨_, (autoFields globals draw.1 draw.2.1 draw.2.2).2.1,
        (autoFields globals draw.1 draw.2.1 draw.2.2).2.2, rfl, ht, ?_⟩
      rcases List.mem_append.mp hkey with hkey | hkey
      · exact (hlt key hkey).le
      · exact (List.mem_singleton.mp hkey).le
    · exact List.nodup_append.mpr ⟨hnodup, List.nodup_singleton _, fun key hkey new hnew =>
        List.mem_singleton.mp hnew ▸ (hlt key hkey).ne⟩

/-- The keys that an `enqueue` commits under or has committed under. -/
def State.keys (s : State V A) : List Nat := (s.enqueues.flatten ++ s.map.entries).map Prod.fst

structure State.Distinct (s : State V A) : Prop where
  drawn : Drawn s.globals s.keys
  nodup : s.keys.Nodup

omit [DecidableEq V] [DecidableEq A] in
/-- Keys go. -/
theorem State.Distinct.subperm {s s' : State V A} (h : s.Distinct) (hglobals : s'.globals = s.globals)
    (hkeys : s'.keys.Subperm s.keys) : s'.Distinct := by
  refine ⟨fun key hkey => hglobals ▸ h.drawn key (hkeys.subset hkey), ?_⟩
  obtain ⟨l, hperm, hsub⟩ := hkeys
  exact hperm.nodup_iff.mp (hsub.nodup h.nodup)

omit [DecidableEq V] [DecidableEq A] in
/-- The keys of a take go. -/
theorem State.Distinct.take {s : State V A} (h : s.Distinct) {request : DequeueRequest}
    {items : List (Item V A)} {response : DequeueResponse V A} {map : SortedAssoc Nat (Item V A)}
    (hs : tryDequeue s.constructed s.map request = some (items, response, map)) :
    State.Distinct { s with map := map } := by
  obtain ⟨n, -, hdrop⟩ := tryDequeue_drop hs
  refine h.subperm rfl (List.Sublist.subperm (List.Sublist.map _ ?_))
  show (_ ++ map.entries).Sublist _
  rw [hdrop]
  exact (List.Sublist.refl _).append (List.drop_sublist n _)

omit [DecidableEq V] [DecidableEq A] in
theorem State.Distinct.freshKeys {s : State V A} (h : s.Distinct) (a : Action V A) :
    FreshKeys s a := by
  cases a with
  | enqueueCommit i =>
    intro entries hentries
    have hsub : ((entries ++ s.map.entries).map Prod.fst).Sublist s.keys :=
      ((List.sublist_flatten_of_mem (List.mem_of_getElem? hentries)).append (.refl _)).map _
    have hnodup := hsub.nodup h.nodup
    rw [List.map_append, List.nodup_append] at hnodup
    exact ⟨hnodup.1, fun entry hentry e he =>
      (hnodup.2.2 _ (List.mem_map_of_mem hentry) _ (List.mem_map_of_mem he)).symm⟩
  | _ => trivial

omit [DecidableEq V] [DecidableEq A] in
theorem State.flatten_enqueues {s : State V A} {i : Nat} (hi : i < s.enqueues.length) :
    s.enqueues.flatten.Perm (s.enqueues[i] ++ (s.enqueues.eraseIdx i).flatten) :=
  (List.getElem_cons_eraseIdx_perm hi).symm.flatten

omit [DecidableEq V] [DecidableEq A] in
/-- An `enqueue` commits: its keys are those of the map now. -/
theorem State.Distinct.commit {s s' : State V A} (h : s.Distinct) {i : Nat}
    {entries : List (Nat × Item V A)} (hentries : s.enqueues[i]? = some entries)
    (hglobals : s'.globals = s.globals) (henqueues : s'.enqueues = s.enqueues.eraseIdx i)
    (hmap : s'.map = entries.foldl (fun map entry => map.put entry.1 entry.2) s.map) :
    s'.Distinct := by
  obtain ⟨hnodup, hfresh⟩ := h.freshKeys (.enqueueCommit i) entries hentries
  obtain ⟨hi, rfl⟩ := List.getElem?_eq_some_iff.mp hentries
  refine h.subperm hglobals (List.Perm.subperm ?_)
  unfold State.keys
  rw [henqueues, hmap]
  refine List.Perm.map _ (((foldl_put_perm hnodup hfresh).append_left _).trans ?_)
  refine .trans ?_ ((State.flatten_enqueues hi).append_right _).symm
  rw [← List.append_assoc]
  exact List.perm_append_comm.trans (.of_eq (List.append_assoc ..).symm)

theorem State.Distinct.step {s s' : State V A} {a : Action V A} (h : s.Distinct)
    (hok : OneProcess s a) (hs : Queues.step s a = some s') : s'.Distinct := by
  cases a with
  | enqueueStart request draws =>
    unfold Queues.step at hs
    dsimp only at hs
    split at hs
    · cases hs
      exact h
    next items _ =>
      split at hs
      next hlength =>
        cases hs
        obtain ⟨hdrawn, hnodup⟩ := h.drawn.drawKeys h.nodup hok.1 hok.2
        have hperm : (State.keys { s with
            globals := (drawKeys s.globals draws).1
            enqueues := s.enqueues ++ [(drawKeys s.globals draws).2.zip items] }).Perm
              (s.keys ++ (drawKeys s.globals draws).2) := by
          have hzip : ((drawKeys s.globals draws).2.zip items).map Prod.fst =
              (drawKeys s.globals draws).2 := List.map_fst_zip (by rw [length_drawKeys, hlength])
          simp only [State.keys, List.flatten_append, List.flatten_singleton, List.map_append, hzip,
            List.append_assoc]
          exact List.perm_append_comm.append_left _
        exact ⟨fun key hkey => hdrawn key (hperm.mem_iff.mp hkey), hperm.nodup_iff.mpr hnodup⟩
      · cases hs
  | enqueueCommit i =>
    unfold Queues.step at hs
    dsimp only at hs
    split at hs
    · cases hs
    next entries hentries =>
      cases hs
      exact h.commit hentries rfl rfl rfl
  | enqueueAbort i =>
    unfold Queues.step at hs
    dsimp only at hs
    split at hs
    next hi =>
      cases hs
      have hsub : ((s.enqueues.eraseIdx i).flatten ++ s.map.entries).Sublist
          (s.enqueues[i] ++ (s.enqueues.eraseIdx i).flatten ++ s.map.entries) :=
        (List.sublist_append_right _ _).append_right _
      have hperm := (State.flatten_enqueues hi).symm.append_right s.map.entries
      exact h.subperm rfl ((hsub.map Prod.fst).subperm.trans (hperm.map Prod.fst).subperm)
    · cases hs
  | tryDequeue request =>
    unfold Queues.step at hs
    dsimp only at hs
    split at hs
    · cases hs
      exact h
    · cases hs
      exact h
    next htry =>
      cases hs
      exact ⟨(h.take htry).drawn, (h.take htry).nodup⟩
  | attempt i =>
    unfold Queues.step at hs
    dsimp only at hs
    split at hs
    · split at hs
      · split at hs
        · cases hs
          exact ⟨h.drawn, h.nodup⟩
        · cases hs
          exact ⟨h.drawn, h.nodup⟩
        next htry =>
          cases hs
          exact ⟨(h.take htry).drawn, (h.take htry).nodup⟩
      · cases hs
    · cases hs
  | dequeue | check | store | finish | fail =>
    -- nothing is drawn, and the map stays
    unfold Queues.step at hs
    dsimp only at hs
    repeat' split at hs
    all_goals first | cases hs; exact ⟨h.drawn, h.nodup⟩ | cases hs
  | crash => exact hok.elim

/-- Within one process the keys are fresh, so a queue conserves its items. -/
theorem reach_freshKeys {s : State V A} (h : Reach step OneProcess State.fresh s) :
    Reach step FreshKeys State.fresh s := by
  have hboth : Reach step FreshKeys State.fresh s ∧ s.Distinct := by
    induction h with
    | init => exact ⟨.init, by simp [Drawn, State.keys, State.fresh, SortedAssoc.empty],
        by simp [State.keys, State.fresh, SortedAssoc.empty]⟩
    | step _ hok hs ih => exact ⟨ih.1.step (ih.2.freshKeys _) hs, ih.2.step hok hs⟩
  exact hboth.1

/-! ## Runs -/

/-- In every run, whatever fails and whatever the clock does, the items that were enqueued are those
in the takes and those in the queue, and no take is answered twice. -/
theorem queue_conserved {s : State V A} (h : Reach step FreshKeys State.fresh s) : s.Conserved :=
  h.invariant State.Conserved State.Conserved.fresh fun _ _ _ hi hok hs => hi.step hok hs

/-- A workflow takes an item and fails before its response is stored; run again, it takes the
next one. -/
def takeAndFail : List (Action Nat Nat) :=
  enqueueTwo.take 5 ++ [.fail 0, .check 0, .attempt 0, .store 0, .crash, .finish 0]

theorem takeAndFail_conserved : (last step State.fresh takeAndFail).Conserved :=
  queue_conserved (reach_last takeAndFail .init (by decide +kernel))

end Reboot.Queues
