import Eunha.FeedJobs
import Eunha.FeedInvariant

/-!
# The feed follows the follow graph

Once no job is left, the feed should hold posts of the accounts that are followed, and of its
owner, only. It does where no merge adds a post of an account that has been left, unless an
unmerge of it still waits, no boost of the account is held back behind another's when the
unmerge reads the feed, no command of an unmerge fails, and no membership ends with posts of
the member in the feed that no unmerge is yet to take.
-/
namespace Eunha.FeedJobs
open Binary64 ScoredSets ScoredSet Feed Interleaving Runs

/-! ### Alone, the commands are the functions -/

section
variable {world : World}

/-- The commands of a call, with no other between them, none of which fails. -/
inductive Alone {κ : Type*} (exec : Timeline → κ → Timeline × Option κ) :
    Timeline → Option κ → Timeline → Prop
  | done (t : Timeline) : Alone exec t none t
  | step {t t' : Timeline} {stage : κ} :
      Alone exec (exec t stage).1 (exec t stage).2 t' → Alone exec t (some stage) t'

end

/-! ### What is asked of the feed -/

section
variable (world : World)

def Allowed (s : Store) (statusId : ℕ) : Prop :=
  world.author statusId = world.owner ∨ s.members (world.author statusId) = true

/-- No job waits or runs, and no request is under way. -/
def Settled (c : Config Store Phase) : Prop := c.store.queue = [] ∧ c.calls = []

def Follows (s : Store) : Prop := ∀ m ∈ s.timeline.key.members, Allowed world s m

def Phase.awaits (accountId : ℕ) : Phase → Bool
  | .pushUnmerge a | .unmergeStart a | .unmergeRead a => a = accountId
  | _ => false

def Waits (s : Store) (calls : List Phase) (accountId : ℕ) : Prop :=
  .unmerge accountId ∈ s.queue ∨ ∃ c ∈ calls, c.awaits accountId = true

def Phase.todo : Phase → List ℕ
  | .unmergeFilter a members => members.filter fun s => world.author s = a
  | .unmergeSettings _ ids => ids
  | .remove _ _ _ statusId rest _ => statusId :: rest
  | _ => []

/-- The boost that an unmerge is about to put in the place of another. -/
def Phase.promotes : Phase → Option ℕ
  | .remove _ _ _ _ _ (.promote _ other) => some other
  | _ => none

/-- A boost that is held back, or on its way into the feed. -/
def Standby (s : Store) (calls : List Phase) (m : ℕ) : Prop :=
  (∃ r, m ∈ s.timeline.reblogSet r) ∨ ∃ c ∈ calls, c.promotes = some m

/-- What of the account is in the feed an unmerge will take out. -/
structure Unmerging (s : Store) (calls : List Phase) (m : ℕ) : Prop where
  feed : m ∈ s.timeline.key.members → Waits s calls (world.author m) ∨ ∃ c ∈ calls, m ∈ c.todo world
  standby : Standby s calls m → Waits s calls (world.author m)

def Careful (s : Store) (call : Phase) (others : List Phase) (w : Answer) : Prop :=
  match call with
  -- An unfollow queues its unmerge.
  | .pushUnmerge _ => w.crashed = false ∧ w.fails = false
  -- A membership ends once the unmerge waits or has read all there is to take.
  | .deleteAfter a => ∀ m, world.author m = a → a ≠ world.owner → Unmerging world s others m
  -- What a merge adds is of an account still followed, or an unmerge of it waits.
  | .add _ _ statusId _ .key | .add _ _ statusId _ (.hold _) =>
      Allowed world s statusId ∨ Waits s others (world.author statusId)
  | .unmergeStart _ => w.crashed = true ∨ w.present = true
  -- No boost is held back when an unmerge of its account reads the feed.
  | .unmergeRead a => w.crashed = true ∨ w.fails = false ∧ ∀ m, world.author m = a →
      Standby s others m → Allowed world s m ∨ Waits s others a
  | .unmergeFilter .. | .remove .. => w.crashed = true ∨ w.fails = false
  | _ => True

def careful : Guards Store Phase Request Answer :=
  ⟨fun _ _ _ => True, fun s call others w => Careful world s call others w⟩

end

/-! ### The invariant -/

section
variable {world : World} {s s' : Store} {call : Phase} {calls calls' : List Phase}
  {onward : Option Phase}

structure Inv (world : World) (s : Store) (calls : List Phase) : Prop where
  statuses : ∀ m, Allowed world s m ∨ Unmerging world s calls m
  /-- What an unmerge takes out is of its account. -/
  own : ∀ c ∈ calls, ∀ m ∈ c.todo world, c.job = some (.unmerge (world.author m))

theorem Waits.mono {a : ℕ} (hqueue : ∀ j ∈ s.queue, j ∈ s'.queue)
    (hcalls : ∀ c ∈ calls, c ∈ calls') (h : Waits s calls a) : Waits s' calls' a := by
  rcases h with hjob | ⟨c, hc, hawaits⟩
  · exact .inl (hqueue _ hjob)
  · exact .inr ⟨c, hcalls c hc, hawaits⟩

theorem Inv.perm (hperm : calls.Perm calls') (h : Inv world s calls) : Inv world s calls' := by
  have hsub : ∀ c ∈ calls, c ∈ calls' := fun c => hperm.mem_iff.mp
  refine ⟨fun m => (h.statuses m).imp_right fun hm => ⟨fun hfeed => ?_, fun hstandby => ?_⟩,
    fun c hc => h.own c (hperm.mem_iff.mpr hc)⟩
  · rcases hm.feed hfeed with hwaits | ⟨c, hc, htodo⟩
    · exact .inl (hwaits.mono (fun _ hj => hj) hsub)
    · exact .inr ⟨c, hsub c hc, htodo⟩
  · refine (hm.standby (hstandby.imp_right ?_)).mono (fun _ hj => hj) hsub
    rintro ⟨c, hc, hpromotes⟩
    exact ⟨c, hperm.mem_iff.mpr hc, hpromotes⟩

theorem Waits.goOn {a : ℕ} (h : Waits s (call :: calls) a)
    (hqueue : ∀ j ∈ s.queue, j ∈ s'.queue)
    (hawaits : call.awaits a = true → Waits s' (onward.toList ++ calls) a) :
    Waits s' (onward.toList ++ calls) a := by
  rcases h with hjob | ⟨c, hc, hc'⟩
  · exact .inl (hqueue _ hjob)
  · rcases List.mem_cons.mp hc with rfl | hc
    · exact hawaits hc'
    · exact .inr ⟨c, List.mem_append_right _ hc, hc'⟩

/-- What a command may do: the feed gains only what is allowed, waited for or was held back,
and what is held back only what is allowed or waited for; what an unmerge is to take it goes
on to take, unless it is gone. -/
structure Harmless (world : World) (s : Store) (call : Phase) (calls : List Phase) (s' : Store)
    (onward : Option Phase) : Prop where
  members : ∀ m, Allowed world s m → Allowed world s' m
  queue : ∀ j ∈ s.queue, j ∈ s'.queue
  awaits : ∀ a, call.awaits a = true → Waits s' (onward.toList ++ calls) a
  key : ∀ m ∈ s'.timeline.key.members, m ∈ s.timeline.key.members ∨
    Standby s (call :: calls) m ∨ Allowed world s m ∨ Waits s calls (world.author m)
  set : ∀ r, ∀ m ∈ s'.timeline.reblogSet r, m ∈ s.timeline.reblogSet r ∨ Allowed world s m ∨
    Waits s calls (world.author m)
  todo : ∀ m ∈ call.todo world, m ∈ s'.timeline.key.members →
    (∃ c, onward = some c ∧ m ∈ c.todo world) ∨ Waits s' (onward.toList ++ calls) (world.author m)
  promotes : ∀ c, onward = some c → ∀ m, c.promotes = some m → Standby s (call :: calls) m
  own : ∀ c, onward = some c → ∀ m ∈ c.todo world, c.job = some (.unmerge (world.author m))

theorem Inv.goOn (h : Inv world s (call :: calls)) (hstep : Harmless world s call calls s' onward) :
    Inv world s' (onward.toList ++ calls) := by
  refine ⟨fun m => ?_, fun c hc => ?_⟩
  · rcases h.statuses m with hallowed | hm
    · exact .inl (hstep.members m hallowed)
    by_cases hallowed : Allowed world s m
    · exact .inl (hstep.members m hallowed)
    have hstays {a : ℕ} (hw : Waits s (call :: calls) a) : Waits s' (onward.toList ++ calls) a :=
      hw.goOn hstep.queue (hstep.awaits a)
    have hothers {a : ℕ} (hw : Waits s calls a) : Waits s' (onward.toList ++ calls) a :=
      hw.mono hstep.queue fun c hc => List.mem_append_right _ hc
    refine .inr ⟨fun hfeed => ?_, fun hstandby => ?_⟩
    · rcases hstep.key m hfeed with hfeed' | hheld | hallowed' | hwaits
      · rcases hm.feed hfeed' with hwaits | ⟨c, hc, htodo⟩
        · exact .inl (hstays hwaits)
        · rcases List.mem_cons.mp hc with rfl | hc
          · rcases hstep.todo m htodo hfeed with ⟨c, hc, hmem⟩ | hwaits
            · exact .inr ⟨c, List.mem_append_left _ (by simpa using hc), hmem⟩
            · exact .inl hwaits
          · exact .inr ⟨c, List.mem_append_right _ hc, htodo⟩
      · exact .inl (hstays (hm.standby hheld))
      · exact absurd hallowed' hallowed
      · exact .inl (hothers hwaits)
    · rcases hstandby with ⟨r, hr⟩ | ⟨c, hc, hpromotes⟩
      · rcases hstep.set r m hr with hr' | hallowed' | hwaits
        · exact hstays (hm.standby (.inl ⟨r, hr'⟩))
        · exact absurd hallowed' hallowed
        · exact hothers hwaits
      · refine hstays (hm.standby ?_)
        rcases List.mem_append.mp hc with hc | hc
        · exact hstep.promotes c (by simpa using hc) m hpromotes
        · exact .inr ⟨c, List.mem_cons_of_mem _ hc, hpromotes⟩
  · rcases List.mem_append.mp hc with hc | hc
    · exact hstep.own c (by simpa using hc)
    · exact h.own c (List.mem_cons_of_mem _ hc)

variable (onward) in
theorem Inv.same (h : Inv world s (call :: calls)) (htimeline : s'.timeline = s.timeline)
    (hmembers : ∀ a, s.members a = true → s'.members a = true)
    (hqueue : ∀ j ∈ s.queue, j ∈ s'.queue)
    (hawaits : ∀ a, call.awaits a = true → Waits s' (onward.toList ++ calls) a)
    (htodo : ∀ m ∈ call.todo world, m ∈ s.timeline.key.members →
      (∃ c, onward = some c ∧ m ∈ c.todo world) ∨ Waits s' (onward.toList ++ calls) (world.author m))
    (hpromotes : ∀ c, onward = some c → ∀ m, c.promotes = some m → Standby s (call :: calls) m)
    (hown : ∀ c, onward = some c → ∀ m ∈ c.todo world, c.job = some (.unmerge (world.author m))) :
    Inv world s' (onward.toList ++ calls) :=
  h.goOn
    { members := fun _ hm => hm.imp_right (hmembers _)
      queue := hqueue
      awaits := hawaits
      key := fun _ hm => .inl (htimeline ▸ hm)
      set := fun _ _ hm => .inl (htimeline ▸ hm)
      todo := fun m hm hkey => htodo m hm (htimeline ▸ hkey)
      promotes := hpromotes
      own := hown }

variable (onward) in
theorem Inv.quiet (h : Inv world s (call :: calls)) (htimeline : s'.timeline = s.timeline)
    (hmembers : ∀ a, s.members a = true → s'.members a = true)
    (hqueue : ∀ j ∈ s.queue, j ∈ s'.queue) (hcall : ∀ a, call.awaits a = false)
    (htodo : call.todo world = []) (hpromotes : ∀ c, onward = some c → c.promotes = none)
    (hnext : ∀ c, onward = some c → c.todo world = []) : Inv world s' (onward.toList ++ calls) := by
  refine h.same _ htimeline hmembers hqueue ?_ ?_ ?_ ?_
  · intro a ha
    rw [hcall a] at ha
    cases ha
  · intro m hm
    rw [htodo] at hm
    cases hm
  · intro c hc m hm
    rw [hpromotes c hc] at hm
    cases hm
  · intro c hc m hm
    rw [hnext c hc] at hm
    cases hm

/-! ### What the commands do to the feed -/

theorem key_execAdd {t : Timeline} {statusId m : ℕ} {stage : AddStage}
    (h : m ∈ (execAdd t statusId stage).1.key.members) :
    m ∈ t.key.members ∨ stage = .key ∧ m = statusId := by
  cases stage with
  | key =>
      rcases mem_members_zadd.mp h with rfl | h
      · exact .inr ⟨rfl, rfl⟩
      · exact .inl h
  | _ => exact .inl h

theorem set_execAdd {t : Timeline} {statusId m r : ℕ} {stage : AddStage}
    (h : m ∈ (execAdd t statusId stage).1.reblogSet r) :
    m ∈ t.reblogSet r ∨ (∃ r', stage = .hold r') ∧ m = statusId := by
  cases stage with
  | hold r' =>
      simp only [execAdd, Function.update_apply] at h
      split at h
      next heq =>
        rcases Finset.mem_insert.mp h with rfl | h
        · exact .inr ⟨⟨r', rfl⟩, rfl⟩
        · exact .inl (heq ▸ h)
      · exact .inl h
  | _ => exact .inl h

theorem mem_of_mem_update {sets : ℕ → Finset ℕ} {r r' m : ℕ} {set : Finset ℕ}
    (hsub : set ⊆ sets r') (h : m ∈ Function.update sets r' set r) : m ∈ sets r := by
  rw [Function.update_apply] at h
  split at h
  next heq => exact heq ▸ hsub h
  · exact h

theorem key_execTrim {t : Timeline} {m : ℕ} {stage : TrimStage}
    (h : m ∈ (execTrim t stage).1.key.members) : m ∈ t.key.members := by
  cases stage with
  | cut => exact (List.take_subset _ _ |> fun hsub => List.map_subset _ hsub) h
  | _ => exact h

theorem set_execTrim {t : Timeline} {m r : ℕ} {stage : TrimStage}
    (h : m ∈ (execTrim t stage).1.reblogSet r) : m ∈ t.reblogSet r := by
  cases stage with
  | delSet r' rest => exact mem_of_mem_update (Finset.empty_subset _) h
  | _ => exact h

theorem key_execRemove {t : Timeline} {statusId m : ℕ} {stage : RemoveStage}
    (h : m ∈ (execRemove t statusId stage).1.key.members) :
    m ∈ t.key.members ∨ ∃ r, stage = .promote r m := by
  cases stage with
  | promote r other =>
      rcases mem_members_zadd.mp h with rfl | h
      · exact .inr ⟨r, rfl⟩
      · exact .inl h
  | key => exact .inl (mem_members_zrem.mp h).1
  | _ => exact .inl h

theorem set_execRemove {t : Timeline} {statusId m r : ℕ} {stage : RemoveStage}
    (h : m ∈ (execRemove t statusId stage).1.reblogSet r) : m ∈ t.reblogSet r := by
  cases stage with
  | srem r' => exact mem_of_mem_update (Finset.erase_subset _ _) h
  | delSet => exact mem_of_mem_update (Finset.empty_subset _) h
  | _ => exact h

theorem not_mem_of_removed {t : Timeline} {statusId : ℕ} {stage : RemoveStage}
    (hlast : (execRemove t statusId stage).2 = none) :
    statusId ∉ (execRemove t statusId stage).1.key.members := by
  cases stage with
  | rank r =>
      simp only [execRemove] at hlast ⊢
      split at hlast
      next hnone => exact zrevrank_isNone.mp hnone
      · cases hlast
  | key => exact fun h => (mem_members_zrem.mp h).2 rfl
  | _ => cases hlast

theorem mem_of_promote {t : Timeline} {statusId m r : ℕ} {stage : RemoveStage}
    (h : (execRemove t statusId stage).2 = some (.promote r m)) : m ∈ t.reblogSet r := by
  cases stage with
  | smembers r' =>
      simp only [execRemove, Option.some.injEq] at h
      split at h
      next other hother =>
        obtain ⟨rfl, rfl⟩ := RemoveStage.promote.inj h
        exact oldest_eq_some hother
      · cases h
  | rank r' =>
      simp only [execRemove] at h
      split at h <;> cases h
  | _ => cases h

/-! ### Every command -/

theorem todo_nextAdd (accountId : ℕ) (aggregate : Bool) (rest : List ℕ) :
    (nextAdd world accountId aggregate rest).todo world = [] ∧
      (nextAdd world accountId aggregate rest).promotes = none := by
  cases rest <;> exact ⟨rfl, rfl⟩

theorem Inv.drop (h : Inv world s (call :: calls)) (hcall : ∀ a, call.awaits a = false)
    (htodo : call.todo world = []) : Inv world s calls :=
  h.quiet none rfl (fun _ ha => ha) (fun _ hj => hj) hcall htodo
    (fun _ hc => nomatch hc) (fun _ hc => nomatch hc)

theorem afterAdd_spec {accountId statusId : ℕ} {aggregate : Bool} {rest : List ℕ}
    {next : Option AddStage} {c : Phase}
    (h : some (match next with
      | some stage => Phase.add accountId aggregate statusId rest stage
      | none => nextAdd world accountId aggregate rest) = some c) :
    c.todo world = [] ∧ c.promotes = none := by
  obtain rfl := Option.some.inj h
  cases next with
  | some stage => exact ⟨rfl, rfl⟩
  | none => exact todo_nextAdd accountId aggregate rest

theorem inv_add {accountId statusId : ℕ} {aggregate : Bool} {rest : List ℕ} {stage : AddStage}
    {w : Answer} (h : Inv world s (.add accountId aggregate statusId rest stage :: calls))
    (hcareful : Careful world s (.add accountId aggregate statusId rest stage) calls w) :
    Inv world (proceed world s w (.add accountId aggregate statusId rest stage)).1
      ((proceed world s w (.add accountId aggregate statusId rest stage)).2.toList ++ calls) := by
  simp only [proceed]
  split
  · exact h.drop (fun _ => rfl) rfl
  refine h.goOn
    { members := fun m hm => hm
      queue := fun j hj => hj
      awaits := by rintro _ ⟨⟩
      key := fun m hm => ?_
      set := fun r m hm => ?_
      todo := by rintro _ ⟨⟩
      promotes := fun c hc m hm => ?_
      own := fun c hc m hm => ?_ }
  · rcases key_execAdd hm with hm | ⟨rfl, rfl⟩
    · exact .inl hm
    · exact .inr (.inr hcareful)
  · rcases set_execAdd hm with hm | ⟨⟨r', rfl⟩, rfl⟩
    · exact .inl hm
    · exact .inr hcareful
  · rw [(afterAdd_spec hc).2] at hm
    cases hm
  · rw [(afterAdd_spec hc).1] at hm
    cases hm

theorem inv_trim {accountId : ℕ} {stage : TrimStage} {w : Answer}
    (h : Inv world s (.trim accountId stage :: calls)) :
    Inv world (proceed world s w (.trim accountId stage)).1
      ((proceed world s w (.trim accountId stage)).2.toList ++ calls) := by
  simp only [proceed]
  split
  · exact h.drop (fun _ => rfl) rfl
  refine h.goOn
    { members := fun m hm => hm
      queue := fun j hj => hj
      awaits := fun a ha => nomatch ha
      key := fun m hm => .inl (key_execTrim hm)
      set := fun r m hm => .inl (set_execTrim hm)
      todo := fun m hm => nomatch hm
      promotes := fun c hc m hm => ?_
      own := fun c hc m hm => ?_ }
  · obtain ⟨stage, -, rfl⟩ := Option.map_eq_some_iff.mp hc
    cases hm
  · obtain ⟨stage, -, rfl⟩ := Option.map_eq_some_iff.mp hc
    cases hm

theorem nextRemove_spec {accountId : ℕ} {known aggregate : Bool} {ids : List ℕ} {c : Phase}
    (h : nextRemove world accountId known aggregate ids = some c) :
    c.todo world = ids ∧ c.promotes = none ∧ c.job = some (.unmerge accountId) := by
  cases ids with
  | nil => cases h
  | cons s rest =>
      obtain rfl := Option.some.inj h
      refine ⟨rfl, ?_, rfl⟩
      unfold removeStage
      split <;> rfl

variable (world) in
theorem nextRemove_isSome (accountId : ℕ) {m : ℕ} (known aggregate : Bool) {ids : List ℕ}
    (h : m ∈ ids) : ∃ c, nextRemove world accountId known aggregate ids = some c := by
  cases ids with
  | nil => cases h
  | cons s rest => exact ⟨_, rfl⟩

theorem inv_remove {accountId statusId : ℕ} {known aggregate : Bool} {rest : List ℕ}
    {stage : RemoveStage} {w : Answer} (hw : w.fails = false)
    (h : Inv world s (.remove accountId known aggregate statusId rest stage :: calls)) :
    Inv world (proceed world s w (.remove accountId known aggregate statusId rest stage)).1
      ((proceed world s w (.remove accountId known aggregate statusId rest stage)).2.toList ++
        calls) := by
  have hown := h.own _ (List.mem_cons_self ..)
  simp only [proceed, hw, Bool.false_eq_true, if_false]
  refine h.goOn
    { members := fun m hm => hm
      queue := fun j hj => hj
      awaits := fun a ha => nomatch ha
      key := fun m hm => ?_
      set := fun r m hm => .inl (set_execRemove hm)
      todo := fun m hm hfeed => ?_
      promotes := fun c hc m hm => ?_
      own := fun c hc m hm => ?_ }
  · rcases key_execRemove hm with hm | ⟨r, rfl⟩
    · exact .inl hm
    · exact .inr (.inl (.inr ⟨_, List.mem_cons_self .., rfl⟩))
  · cases hlast : (execRemove s.timeline statusId stage).2 with
    | some stage' => exact .inl ⟨_, rfl, hm⟩
    | none =>
        rcases List.mem_cons.mp hm with rfl | hm
        · exact absurd hfeed (not_mem_of_removed hlast)
        · obtain ⟨c, hc⟩ := nextRemove_isSome world accountId known aggregate hm
          exact .inl ⟨c, hc, (nextRemove_spec hc).1 ▸ hm⟩
  · cases hlast : (execRemove s.timeline statusId stage).2 with
    | some stage' =>
        rw [hlast] at hc
        obtain rfl := Option.some.inj hc
        cases stage' with
        | promote r other =>
            obtain rfl := Option.some.inj hm
            exact .inl ⟨r, mem_of_promote hlast⟩
        | _ => cases hm
    | none =>
        rw [hlast] at hc
        rw [(nextRemove_spec hc).2.1] at hm
        cases hm
  · cases hlast : (execRemove s.timeline statusId stage).2 with
    | some stage' =>
        rw [hlast] at hc
        obtain rfl := Option.some.inj hc
        exact hown m hm
    | none =>
        rw [hlast] at hc
        obtain ⟨htodo, -, hjob⟩ := nextRemove_spec hc
        rw [hjob]
        exact hown m (List.mem_cons_of_mem _ (htodo ▸ hm))

/-! ### Requests and queries -/

theorem setMember_of_ne {a b : ℕ} {member : Bool} (hne : b ≠ a) :
    (setMember s a member).members b = s.members b := Function.update_of_ne hne ..

variable (onward) in
theorem Inv.leave {a : ℕ} (h : Inv world s (call :: calls)) (hcall : ∀ b, call.awaits b = false)
    (htodo : call.todo world = [])
    (hpromotes : ∀ c, onward = some c → c.promotes = none)
    (hnext : ∀ c, onward = some c → c.todo world = [])
    (hleft : ∀ m, world.author m = a → a ≠ world.owner →
      Unmerging world s (onward.toList ++ calls) m) :
    Inv world (setMember s a false) (onward.toList ++ calls) := by
  have hrest : Inv world s (onward.toList ++ calls) :=
    h.quiet _ rfl (fun _ ha => ha) (fun _ hj => hj) hcall htodo hpromotes hnext
  refine ⟨fun m => ?_, hrest.own⟩
  by_cases hm : world.author m = a
  · by_cases ha : a = world.owner
    · exact .inl (.inl (hm.trans ha))
    · exact .inr ⟨(hleft m hm ha).feed, (hleft m hm ha).standby⟩
  · rcases hrest.statuses m with hallowed | hunmerging
    · refine .inl (hallowed.imp_right fun hmember => ?_)
      rw [setMember_of_ne hm]
      exact hmember
    · exact .inr ⟨hunmerging.feed, hunmerging.standby⟩

theorem inv_delete {a : ℕ} {w : Answer} (h : Inv world s (.delete a :: calls)) :
    Inv world (proceed world s w (.delete a)).1
      ((proceed world s w (.delete a)).2.toList ++ calls) := by
  simp only [proceed]
  split
  · exact h.drop (fun _ => rfl) rfl
  split
  · refine h.leave (some (.pushUnmerge a)) (fun _ => rfl) rfl ?_ ?_ ?_
    · rintro c ⟨⟩
      rfl
    · rintro c ⟨⟩
      rfl
    · rintro m rfl -
      have hwaits : Waits s (.pushUnmerge (world.author m) :: calls) (world.author m) :=
        .inr ⟨_, List.mem_cons_self .., by simp [Phase.awaits]⟩
      exact ⟨fun _ => .inl hwaits, fun _ => hwaits⟩
  · exact h.drop (fun _ => rfl) rfl

theorem inv_deleteAfter {a : ℕ} {w : Answer} (h : Inv world s (.deleteAfter a :: calls))
    (hcareful : Careful world s (.deleteAfter a) calls w) :
    Inv world (proceed world s w (.deleteAfter a)).1
      ((proceed world s w (.deleteAfter a)).2.toList ++ calls) := by
  simp only [proceed]
  split
  · exact h.drop (fun _ => rfl) rfl
  · exact h.leave none (fun _ => rfl) rfl (fun _ hc => nomatch hc)
      (fun _ hc => nomatch hc) hcareful

theorem inv_unmergeRead {a : ℕ} {w : Answer} (hw : w.fails = false)
    (hstandby : ∀ m, world.author m = a → Standby s calls m → Allowed world s m ∨ Waits s calls a)
    (h : Inv world s (.unmergeRead a :: calls)) :
    Inv world (proceed world s w (.unmergeRead a)).1
      ((proceed world s w (.unmergeRead a)).2.toList ++ calls) := by
  simp only [proceed, hw, Bool.false_eq_true, if_false]
  have hnext : ∀ c ∈ (if s.timeline.key.members.reverse.isEmpty then none
      else some (Phase.unmergeFilter a s.timeline.key.members.reverse)).toList,
      c = .unmergeFilter a s.timeline.key.members.reverse := by
    intro c hc
    split at hc
    · cases hc
    · exact List.mem_singleton.mp hc
  have hothers {b : ℕ} (hwaits : Waits s calls b) {next : List Phase} :
      Waits s (next ++ calls) b :=
    hwaits.mono (fun _ hj => hj) fun c hc => List.mem_append_right _ hc
  refine ⟨fun m => ?_, fun c hc m hm => ?_⟩
  · by_cases hallowed : Allowed world s m
    · exact .inl hallowed
    obtain ⟨hfeed, hheld⟩ := (h.statuses m).resolve_left hallowed
    by_cases hauthor : world.author m = a
    · refine .inr ⟨fun hm => ?_, fun hm => ?_⟩
      · refine .inr ⟨.unmergeFilter a s.timeline.key.members.reverse, ?_, ?_⟩
        · rw [if_neg]
          · exact List.mem_append_left _ (List.mem_singleton_self _)
          · intro hempty
            rw [List.isEmpty_iff, List.reverse_eq_nil_iff] at hempty
            rw [hempty] at hm
            cases hm
        · exact List.mem_filter.mpr ⟨List.mem_reverse.mpr hm, by simpa using hauthor⟩
      · refine hothers (hauthor ▸ (hstandby m hauthor ?_).resolve_left hallowed)
        refine hm.imp_right ?_
        rintro ⟨c, hc, hpromotes⟩
        rcases List.mem_append.mp hc with hc | hc
        · rw [hnext c hc] at hpromotes
          cases hpromotes
        · exact ⟨c, hc, hpromotes⟩
    · have hwaits {calls' : List Phase} (hw : Waits s (.unmergeRead a :: calls) (world.author m)) :
          Waits s (calls' ++ calls) (world.author m) := by
        rcases hw with hjob | ⟨c, hc, hawaits⟩
        · exact .inl hjob
        · rcases List.mem_cons.mp hc with rfl | hc
          · exact absurd (of_decide_eq_true hawaits).symm hauthor
          · exact .inr ⟨c, List.mem_append_right _ hc, hawaits⟩
      refine .inr ⟨fun hm => ?_, fun hm => hwaits (hheld ?_)⟩
      · rcases hfeed hm with hw | ⟨c, hc, htodo⟩
        · exact .inl (hwaits hw)
        · rcases List.mem_cons.mp hc with rfl | hc
          · cases htodo
          · exact .inr ⟨c, List.mem_append_right _ hc, htodo⟩
      · refine hm.imp_right ?_
        rintro ⟨c, hc, hpromotes⟩
        rcases List.mem_append.mp hc with hc | hc
        · rw [hnext c hc] at hpromotes
          cases hpromotes
        · exact ⟨c, List.mem_cons_of_mem _ hc, hpromotes⟩
  · rcases List.mem_append.mp hc with hc | hc
    · rw [hnext c hc] at hm ⊢
      have hauthor := (List.mem_filter.mp hm).2
      rw [decide_eq_true_eq] at hauthor
      rw [hauthor]
      rfl
    · exact h.own c (List.mem_cons_of_mem _ hc) m hm

theorem mem_inOrder {given rows : List ℕ} {m : ℕ} : m ∈ inOrder given rows ↔ m ∈ rows := by
  unfold inOrder
  split
  next hperm => exact hperm.mem_iff
  · rfl

theorem inv_unmergeFilter {a : ℕ} {members : List ℕ} {w : Answer} (hw : w.fails = false)
    (h : Inv world s (.unmergeFilter a members :: calls)) :
    Inv world (proceed world s w (.unmergeFilter a members)).1
      ((proceed world s w (.unmergeFilter a members)).2.toList ++ calls) := by
  have hown := h.own _ (List.mem_cons_self ..)
  simp only [proceed, hw, Bool.false_eq_true, if_false]
  have hids (m : ℕ) (hm : m ∈ (Phase.unmergeFilter a members).todo world) :
      m ∈ inOrder w.statuses (members.filter fun s => world.author s = a) := mem_inOrder.mpr hm
  refine h.same _ rfl (fun _ ha => ha) (fun _ hj => hj) (fun _ ha => nomatch ha) ?_ ?_ ?_
  · intro m hm _
    refine .inl ⟨.unmergeSettings a _, if_neg ?_, hids m hm⟩
    intro hempty
    have hmem := hids m hm
    rw [List.isEmpty_iff.mp hempty] at hmem
    cases hmem
  · intro c hc m hm
    split at hc
    · cases hc
    · obtain rfl := Option.some.inj hc
      cases hm
  · intro c hc m hm
    split at hc
    · cases hc
    · obtain rfl := Option.some.inj hc
      exact hown m (mem_inOrder.mp hm)

theorem inv_unmergeSettings {a : ℕ} {ids : List ℕ} {w : Answer}
    (h : Inv world s (.unmergeSettings a ids :: calls)) :
    Inv world (proceed world s w (.unmergeSettings a ids)).1
      ((proceed world s w (.unmergeSettings a ids)).2.toList ++ calls) := by
  have hown := h.own _ (List.mem_cons_self ..)
  simp only [proceed]
  refine h.same _ rfl (fun _ ha => ha) (fun _ hj => hj) (fun _ ha => nomatch ha) ?_ ?_ ?_
  · intro m hm _
    obtain ⟨c, hc⟩ := nextRemove_isSome world a (!w.fails) w.aggregate hm
    exact .inl ⟨c, hc, (nextRemove_spec hc).1 ▸ hm⟩
  · intro c hc m hm
    rw [(nextRemove_spec hc).2.1] at hm
    cases hm
  · intro c hc m hm
    rw [(nextRemove_spec hc).2.2]
    exact hown m ((nextRemove_spec hc).1 ▸ hm)

theorem job_of_awaits {a : ℕ} (h : call.awaits a = true) :
    call = .pushUnmerge a ∨ call.job = some (.unmerge a) := by
  cases call with
  | pushUnmerge b => exact .inl (congrArg _ (of_decide_eq_true h))
  | unmergeStart b => exact .inr (congrArg (some ∘ Job.unmerge) (of_decide_eq_true h))
  | unmergeRead b => exact .inr (congrArg (some ∘ Job.unmerge) (of_decide_eq_true h))
  | _ => cases h

theorem inv_crashed (h : Inv world s (call :: calls)) (hpush : ∀ a, call ≠ .pushUnmerge a) :
    Inv world (match call.job with
      | some job => enqueue s job
      | none => s) calls := by
  have hown := h.own call (List.mem_cons_self ..)
  cases hjob : call.job with
  | none =>
      refine h.same none rfl (fun _ ha => ha) (fun _ hj => hj) ?_ ?_
        (fun _ hc => nomatch hc) (fun _ hc => nomatch hc)
      · intro a ha
        rcases job_of_awaits ha with hcall | hcall
        · exact absurd hcall (hpush a)
        · rw [hjob] at hcall
          cases hcall
      · intro m hm
        rw [hown m hm] at hjob
        cases hjob
  | some job =>
      have hmem : job ∈ (enqueue s job).queue := List.mem_append_right _ (List.mem_singleton_self _)
      refine h.same none rfl (fun _ ha => ha) (fun _ hj => List.mem_append_left _ hj)
        ?_ ?_ (fun _ hc => nomatch hc) (fun _ hc => nomatch hc)
      · intro a ha
        rcases job_of_awaits ha with hcall | hcall
        · exact absurd hcall (hpush a)
        · obtain rfl := Option.some.inj (hjob.symm.trans hcall)
          exact .inl hmem
      · intro m hm _
        obtain rfl := Option.some.inj (hjob.symm.trans (hown m hm))
        exact .inr (.inl hmem)

theorem eq_of_ite_some {p : Prop} [Decidable p] {c c' : Phase}
    (h : (if p then some c else none) = some c') : c' = c := by
  split at h
  · exact (Option.some.inj h).symm
  · cases h

theorem inv_exec {w : Answer} (h : Inv world s (call :: calls))
    (hcareful : Careful world s call calls w) :
    Inv world (exec world s call w).1 ((exec world s call w).2.toList ++ calls) := by
  unfold exec
  split
  next hcrashed =>
    refine inv_crashed h ?_
    rintro a rfl
    rw [hcareful.1] at hcrashed
    cases hcrashed
  next hcrashed =>
  cases call with
  | insert a =>
      simp only [proceed]
      split
      · exact h.drop (fun _ => rfl) rfl
      · refine h.quiet _ rfl (fun b hb => ?_) (fun _ hj => hj) (fun _ => rfl) rfl ?_ ?_
        · simp only [setMember, Function.update_apply]
          split
          · rfl
          · exact hb
        · intro c hc
          rw [eq_of_ite_some hc]
          rfl
        · intro c hc
          rw [eq_of_ite_some hc]
          rfl
  | pushMerge a =>
      simp only [proceed]
      split
      · exact h.drop (fun _ => rfl) rfl
      · exact h.quiet none rfl (fun _ ha => ha) (fun _ hj => List.mem_append_left _ hj)
          (fun _ => rfl) rfl (fun _ hc => nomatch hc) (fun _ hc => nomatch hc)
  | delete a => exact inv_delete h
  | pushUnmerge a =>
      simp only [proceed, hcareful.2, Bool.false_eq_true, if_false]
      refine h.same none rfl (fun _ ha => ha) (fun _ hj => List.mem_append_left _ hj)
        ?_ (fun _ hm => nomatch hm) (fun _ hc => nomatch hc) (fun _ hc => nomatch hc)
      intro b hb
      obtain rfl := of_decide_eq_true hb
      exact .inl (List.mem_append_right _ (List.mem_singleton_self _))
  | pushFirst a =>
      simp only [proceed]
      split
      · refine h.quiet (some (.deleteAfter a)) rfl (fun _ ha => ha)
          (fun _ hj => List.mem_append_left _ hj) (fun _ => rfl) rfl ?_ ?_
        · rintro c ⟨⟩
          rfl
        · rintro c ⟨⟩
          rfl
      · refine h.quiet (some (.deleteAfter a)) rfl (fun _ ha => ha) (fun _ hj => hj)
          (fun _ => rfl) rfl ?_ ?_
        · rintro c ⟨⟩
          rfl
        · rintro c ⟨⟩
          rfl
  | deleteAfter a => exact inv_deleteAfter h hcareful
  | mergeStart a =>
      simp only [proceed]
      refine h.quiet _ rfl (fun _ ha => ha) (fun _ hj => hj) (fun _ => rfl) rfl ?_ ?_
      · intro c hc
        rw [eq_of_ite_some hc]
        rfl
      · intro c hc
        rw [eq_of_ite_some hc]
        rfl
  | mergeSize a aggregate =>
      simp only [proceed]
      refine h.quiet _ rfl (fun _ ha => ha) (fun _ hj => hj) (fun _ => rfl) rfl ?_ ?_
      · rintro c ⟨⟩
        split <;> rfl
      · rintro c ⟨⟩
        split <;> rfl
  | mergeOldest a aggregate =>
      simp only [proceed]
      refine h.quiet _ rfl (fun _ ha => ha) (fun _ hj => hj) (fun _ => rfl) rfl ?_ ?_
      · rintro c ⟨⟩
        rfl
      · rintro c ⟨⟩
        rfl
  | mergeRead a aggregate oldest =>
      simp only [proceed]
      refine h.quiet _ rfl (fun _ ha => ha) (fun _ hj => hj) (fun _ => rfl) rfl ?_ ?_
      · rintro c ⟨⟩
        exact (todo_nextAdd a aggregate _).2
      · rintro c ⟨⟩
        exact (todo_nextAdd a aggregate _).1
  | add a aggregate statusId rest stage => exact inv_add h hcareful
  | trim a stage => exact inv_trim h
  | unmergeStart a =>
      have hpresent := hcareful.resolve_left hcrashed
      simp only [proceed, hpresent, if_true]
      refine h.same (some (.unmergeRead a)) rfl (fun _ ha => ha) (fun _ hj => hj)
        (fun b hb => .inr ⟨_, List.mem_cons_self .., hb⟩) (fun _ hm => nomatch hm) ?_ ?_
      · rintro c ⟨⟩ m hm
        cases hm
      · rintro c ⟨⟩ m hm
        cases hm
  | unmergeRead a =>
      obtain ⟨hw, hstandby⟩ := hcareful.resolve_left hcrashed
      exact inv_unmergeRead hw hstandby h
  | unmergeFilter a members => exact inv_unmergeFilter (hcareful.resolve_left hcrashed) h
  | unmergeSettings a ids => exact inv_unmergeSettings h
  | remove a known aggregate statusId rest stage =>
      exact inv_remove (hcareful.resolve_left hcrashed) h

theorem Inv.add (h : Inv world s calls) {s' : Store} {c : Phase}
    (htimeline : s'.timeline = s.timeline) (hmembers : s'.members = s.members)
    (hwaits : ∀ a, Waits s calls a → Waits s' (c :: calls) a) (htodo : c.todo world = [])
    (hpromotes : c.promotes = none) : Inv world s' (c :: calls) := by
  refine ⟨fun m => ?_, fun d hd => ?_⟩
  · rcases h.statuses m with hallowed | hm
    · exact .inl (hallowed.imp_right fun hmember => by rw [hmembers]; exact hmember)
    · refine .inr ⟨fun hfeed => ?_, fun hstandby => hwaits _ (hm.standby ?_)⟩
      · rcases hm.feed (htimeline ▸ hfeed) with hw | ⟨d, hd, htodo⟩
        · exact .inl (hwaits _ hw)
        · exact .inr ⟨d, List.mem_cons_of_mem _ hd, htodo⟩
      · rcases hstandby with ⟨r, hr⟩ | ⟨d, hd, hpromoted⟩
        · exact .inl ⟨r, htimeline ▸ hr⟩
        · rcases List.mem_cons.mp hd with rfl | hd
          · rw [hpromotes] at hpromoted
            cases hpromoted
          · exact .inr ⟨d, hd, hpromoted⟩
  · rcases List.mem_cons.mp hd with rfl | hd
    · rw [htodo]
      exact fun m hm => nomatch hm
    · exact h.own d hd

theorem inv_enter (r : Request) (h : Inv world s calls) :
    Inv world (enter s r).1 ((enter s r).2.toList ++ calls) := by
  have hmore {c : Phase} (a : ℕ) (hw : Waits s calls a) : Waits s (c :: calls) a :=
    hw.mono (fun _ hj => hj) fun d hd => List.mem_cons_of_mem _ hd
  cases r with
  | join a => exact h.add rfl rfl hmore rfl rfl
  | leave a => exact h.add rfl rfl hmore rfl rfl
  | takeOff a => exact h.add rfl rfl hmore rfl rfl
  | work job =>
      simp only [enter]
      split
      next hjob =>
        refine h.add rfl rfl (fun a hw => ?_) ?_ ?_
        · rcases hw with hqueued | ⟨c, hc, hawaits⟩
          · by_cases heq : job = .unmerge a
            · subst heq
              exact .inr ⟨_, List.mem_cons_self .., decide_eq_true rfl⟩
            · exact .inl ((List.mem_erase_of_ne (Ne.symm heq)).mpr hqueued)
          · exact .inr ⟨c, List.mem_cons_of_mem _ hc, hawaits⟩
        · cases job <;> rfl
        · cases job <;> rfl
      · exact h

theorem invariant (world : World) : GuardedInvariant (machine world) (Inv world) (careful world) :=
  ⟨Inv.perm, fun r h _ => inv_enter r h, fun _ h hcareful => inv_exec h hcareful⟩

end

/-- Once no job is left, the feed holds no post of an account that is not followed, in every
interleaving whose commands are careful. -/
theorem follows_of_careful (world : World) (s : Store)
    (hfeed : ∀ m ∈ s.timeline.key.members, Allowed world s m)
    (hheld : ∀ r, ∀ m ∈ s.timeline.reblogSet r, Allowed world s m)
    (es : List (Event Request Answer))
    (hcareful : Guarded (machine world).step (careful world).meets ⟨s, []⟩ es)
    (hsettled : Settled (run (machine world).step ⟨s, []⟩ es)) :
    Follows world (run (machine world).step ⟨s, []⟩ es).store := by
  have hstart : Inv world s [] := by
    refine ⟨fun m => ?_, fun c hc => nomatch hc⟩
    by_cases hallowed : Allowed world s m
    · exact .inl hallowed
    · refine .inr ⟨fun hm => absurd (hfeed m hm) hallowed, ?_⟩
      rintro (⟨r, hr⟩ | ⟨c, hc, -⟩)
      · exact absurd (hheld r m hr) hallowed
      · cases hc
  have hinv := (invariant world).run ⟨s, []⟩ es hstart hcareful
  intro m hm
  refine (hinv.statuses m).resolve_right fun hunmerging => ?_
  rcases hunmerging.feed hm with (hqueued | ⟨c, hc, -⟩) | ⟨c, hc, -⟩
  · rw [hsettled.1] at hqueued
    cases hqueued
  · rw [hsettled.2] at hc
    cases hc
  · rw [hsettled.2] at hc
    cases hc

/-! ### Jobs in either order -/

/-- The owner is 1, and 20 is a post of 2. -/
def smallWorld : World := ⟨1, fun m => m / 10, fun _ => none⟩

def nobodyFollowed : Store := ⟨.empty, fun _ => false, []⟩

def answering (statuses : List ℕ) : Answer := ⟨false, false, true, true, true, true, statuses⟩

def followed : List (Event Request Answer) :=
  [.request (.join 2), .advance 0 (answering []), .advance 0 (answering []),
    .request (.work (.merge 2))] ++ List.replicate 7 (.advance 0 (answering [20]))

theorem follows_of_careful_followed :
    let c := run (machine smallWorld).step ⟨nobodyFollowed, []⟩ followed
    Follows smallWorld c.store ∧ c.store.timeline.key.members = [20] := by
  refine ⟨follows_of_careful smallWorld nobodyFollowed (fun _ hm => nomatch hm)
    (fun _ _ hm => nomatch hm) followed ?_ ⟨by decide +kernel, ?_⟩, by decide +kernel⟩
  · exact ⟨trivial, trivial, trivial, trivial, trivial, trivial, trivial, trivial,
      .inl (.inr rfl), trivial, trivial, trivial⟩
  · exact rfl

/-- 2 is followed and left again, and the unmerge runs before the merge. -/
def mergedLast : List (Event Request Answer) :=
  [.request (.join 2), .advance 0 (answering []), .advance 0 (answering []),
    .request (.leave 2), .advance 0 (answering []), .advance 0 (answering []),
    .request (.work (.unmerge 2)), .advance 0 (answering []), .advance 0 (answering []),
    .request (.work (.merge 2))] ++ List.replicate 7 (.advance 0 (answering [20]))

/-- The post of an account that is not followed stays in the feed. -/
theorem left_account_stays : ¬ ∀ (world : World) (s : Store) (es : List (Event Request Answer)),
    (∀ m ∈ s.timeline.key.members, Allowed world s m) →
      (∀ r, ∀ m ∈ s.timeline.reblogSet r, Allowed world s m) →
        Settled (run (machine world).step ⟨s, []⟩ es) →
          Follows world (run (machine world).step ⟨s, []⟩ es).store := by
  intro h
  have hfollows := h smallWorld nobodyFollowed mergedLast (fun _ hm => nomatch hm)
    (fun _ _ hm => nomatch hm) ⟨by decide +kernel, rfl⟩ 20 (by decide +kernel)
  rcases hfollows with howner | hmember
  · exact absurd howner (by decide)
  · exact absurd hmember (by decide +kernel)

end Eunha.FeedJobs
