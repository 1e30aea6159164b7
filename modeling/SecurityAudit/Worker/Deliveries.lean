import SecurityAudit.Worker.System

/-!
# Deliveries

How often an entry was handed out against what its pending row says. `Group.Within g limit id n`
is the invariant for an entry `id` that was handed out `n` times: it never exceeds the delivery
count of the pending row, nor the limit. A group read keeps it, for it hands out an entry only
once; an acknowledgement keeps it; and `XCLAIM` keeps it if the rows it claims are below the
limit at that moment.
-/

namespace SecurityAudit

/-- How often an entry occurs among messages. -/
def copies (id : StreamId) (ms : List Message) : ℕ := (ms.map Message.id).count id

@[simp] theorem copies_nil (id : StreamId) : copies id [] = 0 := rfl

theorem copies_append (id : StreamId) (ms ms' : List Message) :
    copies id (ms ++ ms') = copies id ms + copies id ms' := by
  simp [copies]

theorem copies_singleton (id : StreamId) (m : Message) :
    copies id [m] = if m.id = id then 1 else 0 := by
  rw [copies, List.map_singleton, List.count_singleton]
  simp

theorem copies_eq_zero {id : StreamId} {ms : List Message} (h : ∀ m ∈ ms, m.id ≠ id) :
    copies id ms = 0 := by
  rw [copies, List.count_eq_zero]
  intro hmem
  obtain ⟨m, hm, hid⟩ := List.mem_map.mp hmem
  exact h m hm hid

theorem copies_le_one {id : StreamId} {ms : List Message}
    (h : ms.Pairwise fun a b => a.id < b.id) : copies id ms ≤ 1 := by
  have hnodup : (ms.map Message.id).Nodup := List.pairwise_map.mpr (h.imp fun hab => hab.ne)
  exact List.nodup_iff_count_le_one.mp hnodup id

/-- Handing out messages one by one. -/
theorem sum_copies (id : StreamId) (ms : List Message) :
    (ms.map fun m => copies id [m]).sum = copies id ms := by
  induction ms with
  | nil => rfl
  | cons m ms ih =>
    rw [List.map_cons, List.sum_cons, ih, ← copies_append]
    rfl

namespace Group

variable {g : Group} {id : StreamId} {limit : ℤ} {n : ℕ}

/-- A pending list has one row for each entry, and none for an entry the group has not come to. -/
structure Listing (g : Group) : Prop where
  ids : (g.pel.map Pending.id).Nodup
  delivered : ∀ p ∈ g.pel, p.id ≤ g.lastDelivered

theorem listing_fresh : Group.fresh.Listing where
  ids := by simp [Group.fresh]
  delivered := by simp [Group.fresh]

theorem Listing.ack (h : g.Listing) (id' : StreamId) : (g.ack id').Listing where
  ids := h.ids.sublist (List.filter_sublist.map _)
  delivered p hp := h.delivered p (List.mem_of_mem_filter hp)

/-- The entry `id` was handed out `n` times. -/
structure Within (g : Group) (limit : ℤ) (id : StreamId) (n : ℕ) : Prop extends g.Listing where
  unread : g.lastDelivered < id → n = 0
  bound : (n : ℤ) ≤ limit
  pending : ∀ p ∈ g.pel, p.id = id → n ≤ p.deliveries ∧ (p.deliveries : ℤ) ≤ limit

theorem within_fresh (hlimit : 1 ≤ limit) : Group.fresh.Within limit id 0 where
  toListing := listing_fresh
  unread _ := rfl
  bound := by omega
  pending := by simp [Group.fresh]

/-- Acknowledging takes rows away. -/
theorem Within.ack (h : g.Within limit id n) (id' : StreamId) : (g.ack id').Within limit id n where
  toListing := h.toListing.ack id'
  unread := h.unread
  bound := h.bound
  pending p hp := h.pending p (List.mem_of_mem_filter hp)

/-! ## A group read -/

theorem newMessages_sublist (g : Group) (stream : List Message) :
    (g.newMessages stream).Sublist stream :=
  (List.take_sublist _ _).trans List.filter_sublist

theorem lt_of_mem_newMessages {stream : List Message} {m : Message}
    (hm : m ∈ g.newMessages stream) : g.lastDelivered < m.id := by
  simpa using List.of_mem_filter (List.mem_of_mem_take hm)

/-- What a read hands out lies between the old cursor and the new one. -/
theorem le_deliver {stream : List Message} (hsorted : stream.Pairwise fun a b => a.id < b.id)
    (now : ℕ) (consumer : Str) :
    g.lastDelivered ≤ (g.deliver now consumer (g.newMessages stream)).lastDelivered ∧
      ∀ m ∈ g.newMessages stream,
        m.id ≤ (g.deliver now consumer (g.newMessages stream)).lastDelivered := by
  have hnew := hsorted.sublist (newMessages_sublist g stream)
  have hlt : ∀ m ∈ g.newMessages stream, g.lastDelivered < m.id :=
    fun m hm => lt_of_mem_newMessages hm
  generalize g.newMessages stream = new at hnew hlt
  show g.lastDelivered ≤ (new.getLast?.map Message.id).getD g.lastDelivered ∧
    ∀ m ∈ new, m.id ≤ (new.getLast?.map Message.id).getD g.lastDelivered
  induction new using List.reverseRecOn with
  | nil => simp
  | append_singleton new last _ =>
    rw [List.getLast?_concat]
    obtain ⟨-, -, hlast⟩ := List.pairwise_append.mp hnew
    refine ⟨(hlt last (by simp)).le, fun m hm => ?_⟩
    rcases List.mem_append.mp hm with hm | hm
    · exact (hlast m hm last (by simp)).le
    · rw [List.mem_singleton.mp hm]
      exact le_refl _

/-- The rows of a read are new ones. -/
theorem Listing.deliver (h : g.Listing) {stream : List Message}
    (hsorted : stream.Pairwise fun a b => a.id < b.id) (now : ℕ) (consumer : Str) :
    (g.deliver now consumer (g.newMessages stream)).Listing := by
  obtain ⟨hcursor, hnew⟩ := le_deliver (g := g) hsorted now consumer
  have hpel : (g.deliver now consumer (g.newMessages stream)).pel =
      g.pel ++ (g.newMessages stream).map fun m => ⟨m.id, consumer, now, 1⟩ := rfl
  constructor
  · rw [hpel, List.map_append, List.map_map, List.nodup_append]
    refine ⟨h.ids, ?_, fun a ha b hb => ?_⟩
    · exact List.pairwise_map.mpr
        ((hsorted.sublist (newMessages_sublist g stream)).imp fun hab => hab.ne)
    · obtain ⟨p, hp, rfl⟩ := List.mem_map.mp ha
      obtain ⟨m, hm, rfl⟩ := List.mem_map.mp hb
      exact ((h.delivered p hp).trans_lt (lt_of_mem_newMessages hm)).ne
  · intro p hp
    rw [hpel] at hp
    rcases List.mem_append.mp hp with hp | hp
    · exact (h.delivered p hp).trans hcursor
    · obtain ⟨m, hm, rfl⟩ := List.mem_map.mp hp
      exact hnew m hm

/-- A read hands out each entry once, whether its reply arrives or not. -/
theorem Within.deliver (h : g.Within limit id n) (hlimit : 1 ≤ limit) {stream : List Message}
    (hsorted : stream.Pairwise fun a b => a.id < b.id) (now : ℕ) (consumer : Str) {k : ℕ}
    (hk : k = 0 ∨ k = copies id (g.newMessages stream)) :
    (g.deliver now consumer (g.newMessages stream)).Within limit id (n + k) := by
  obtain ⟨hcursor, hnew⟩ := le_deliver (g := g) hsorted now consumer
  have hpel : (g.deliver now consumer (g.newMessages stream)).pel =
      g.pel ++ (g.newMessages stream).map fun m => ⟨m.id, consumer, now, 1⟩ := rfl
  have hone : copies id (g.newMessages stream) ≤ 1 :=
    copies_le_one (hsorted.sublist (newMessages_sublist g stream))
  -- an entry that is handed out now was not handed out before
  have hfirst : ∀ m ∈ g.newMessages stream, m.id = id → n = 0 := by
    rintro m hm rfl
    exact h.unread (lt_of_mem_newMessages hm)
  have hnone : (∀ m ∈ g.newMessages stream, m.id ≠ id) → k = 0 := by
    intro hne
    rcases hk with hk | hk
    · exact hk
    · rw [hk, copies_eq_zero hne]
  have hle : k ≤ 1 := by
    rcases hk with hk | hk <;> omega
  refine ⟨h.toListing.deliver hsorted now consumer, fun hlt => ?_, ?_, fun p hp hid => ?_⟩
  · have hk0 : k = 0 := hnone fun m hm hid => absurd (hnew m hm) (by rw [hid]; exact not_le.mpr hlt)
    rw [hk0, h.unread (hcursor.trans_lt hlt)]
  · by_cases hmem : ∃ m ∈ g.newMessages stream, m.id = id
    · obtain ⟨m, hm, hid⟩ := hmem
      have := hfirst m hm hid
      omega
    · push Not at hmem
      have := hnone hmem
      have := h.bound
      omega
  · rw [hpel] at hp
    rcases List.mem_append.mp hp with hp | hp
    · -- a row that was there is not handed out again
      have hk0 : k = 0 := by
        refine hnone fun m hm hmid => ?_
        have hlt := lt_of_mem_newMessages hm
        rw [hmid, ← hid] at hlt
        exact absurd (h.delivered p hp) (not_le.mpr hlt)
      rw [hk0]
      exact h.pending p hp hid
    · obtain ⟨m, hm, rfl⟩ := List.mem_map.mp hp
      have hn := hfirst m hm hid
      show n + k ≤ 1 ∧ ((1 : ℕ) : ℤ) ≤ limit
      omega

/-! ## Claiming -/

/-- How far `XCLAIM` got: `acc` is the group and the entries claimed so far, and `named` counts
how often `id` was named. -/
structure Claimed (g : Group) (now : ℕ) (minIdle : ℤ) (id : StreamId)
    (acc : Group × List Message) (named : ℕ) : Prop where
  lastDelivered : acc.1.lastDelivered = g.lastDelivered
  ids : (acc.1.pel.map Pending.id).Sublist (g.pel.map Pending.id)
  named : copies id acc.2 ≤ named
  counted : ∀ p' ∈ acc.1.pel, p'.id = id → ∃ p ∈ g.pel, p.id = id ∧
    p'.deliveries = p.deliveries + copies id acc.2 ∧ (copies id acc.2 = 0 → p' = p)
  idle : 0 < copies id acc.2 → ∃ p ∈ g.pel, p.id = id ∧ idle now minIdle p = true

theorem Claimed.step {now : ℕ} {minIdle : ℤ} {acc : Group × List Message} {named : ℕ}
    (h : g.Claimed now minIdle id acc named) (stream : List Message) (consumer : Str)
    (id' : StreamId) :
    g.Claimed now minIdle id (claimOne stream now minIdle consumer acc id')
      (named + [id'].count id) := by
  obtain ⟨g', claimed⟩ := acc
  unfold claimOne
  dsimp only
  split
  · -- the entry is gone, and so is its row
    exact ⟨h.lastDelivered, (List.filter_sublist.map _).trans h.ids,
      Nat.le_add_right_of_le h.named, fun p' hp' => h.counted p' (List.mem_of_mem_filter hp'),
      h.idle⟩
  next m hfind =>
  split_ifs with hpending
  · -- the entry is claimed: no row comes or goes, and the named one counts one more
    have hmid : m.id = id' := by simpa using List.find?_some hfind
    have hids : (g'.pel.map fun p => if p.id = id' then
        (⟨id', consumer, now, p.deliveries + 1⟩ : Pending) else p).map Pending.id =
          g'.pel.map Pending.id := by
      rw [List.map_map]
      refine List.map_congr_left fun p _ => ?_
      by_cases hp : p.id = id' <;> simp [hp]
    have hcount : copies id (claimed ++ [m]) = copies id claimed + [id'].count id := by
      rw [copies_append, copies, copies, List.map_singleton, hmid]
    refine ⟨h.lastDelivered, by rw [hids]; exact h.ids, ?_, fun p' hp' hid => ?_, fun _ => ?_⟩
    · have := h.named
      dsimp only at this ⊢
      omega
    · obtain ⟨p, hp, rfl⟩ := List.mem_map.mp hp'
      by_cases hpid : p.id = id'
      · rw [if_pos hpid] at hid ⊢
        obtain rfl : id' = id := hid
        obtain ⟨p₀, hp₀, hid₀, hdeliveries, -⟩ := h.counted p hp hpid
        have hself : [id'].count id' = 1 := by simp
        refine ⟨p₀, hp₀, hid₀, ?_, fun h0 => ?_⟩
        · show p.deliveries + 1 = _
          dsimp only at hdeliveries ⊢
          omega
        · dsimp only at h0
          omega
      · rw [if_neg hpid] at hid ⊢
        have hother : [id'].count id = 0 := by
          rw [List.count_eq_zero, List.mem_singleton]
          exact fun heq => hpid (hid.trans heq)
        dsimp only
        rw [hcount, hother]
        exact h.counted p hp hid
    · by_cases hclaimed : 0 < copies id claimed
      · exact h.idle hclaimed
      · -- the first time it is claimed, its row is the one there was
        by_cases hid : id' = id
        · subst hid
          obtain ⟨p, hp, hpid, hidle⟩ := hpending
          obtain ⟨p₀, hp₀, hid₀, -, hsame⟩ := h.counted p hp hpid
          obtain rfl := hsame (by dsimp only; omega)
          exact ⟨p, hp₀, hid₀, hidle⟩
        · exfalso
          have hother : [id'].count id = 0 := by
            rw [List.count_eq_zero, List.mem_singleton]
            exact fun heq => hid heq.symm
          dsimp only at *
          omega
  · -- not pending, or not idle long enough
    exact ⟨h.lastDelivered, h.ids, Nat.le_add_right_of_le h.named, h.counted, h.idle⟩

/-- What `XCLAIM` as a whole does. -/
theorem claimed_claim (g : Group) (stream : List Message) (now : ℕ) (minIdle : ℤ) (consumer : Str)
    (id : StreamId) (ids : List StreamId) :
    g.Claimed now minIdle id (g.claim stream now minIdle consumer ids) (ids.count id) := by
  suffices H : ∀ acc named, g.Claimed now minIdle id acc named →
      g.Claimed now minIdle id (ids.foldl (claimOne stream now minIdle consumer) acc)
        (named + ids.count id) by
    have h := H (g, []) 0 ⟨rfl, List.Sublist.refl _, le_refl _,
      fun p hp hid => ⟨p, hp, hid, rfl, fun _ => rfl⟩, fun h => by cases h⟩
    rwa [Nat.zero_add] at h
  induction ids with
  | nil => exact fun acc named h => h
  | cons id' ids ih =>
    intro acc named h
    have hcount : named + (id' :: ids).count id = named + [id'].count id + ids.count id := by
      rw [← List.singleton_append, List.count_append]
      omega
    rw [hcount]
    exact ih _ _ (h.step stream consumer id')

/-- `XCLAIM` adds no row. -/
theorem Listing.claim (h : g.Listing) (stream : List Message) (now : ℕ) (minIdle : ℤ)
    (consumer : Str) (ids : List StreamId) :
    (g.claim stream now minIdle consumer ids).1.Listing := by
  have hclaim : ∀ id, g.Claimed now minIdle id (g.claim stream now minIdle consumer ids)
      (ids.count id) := fun id => claimed_claim g stream now minIdle consumer id ids
  refine ⟨h.ids.sublist (hclaim (toLex (0, 0))).ids, fun p' hp' => ?_⟩
  obtain ⟨p, hp, hpid, -⟩ := (hclaim p'.id).counted p' hp' rfl
  rw [(hclaim p'.id).lastDelivered, ← hpid]
  exact h.delivered p hp

/-- `XPENDING` names each id once. -/
theorem Listing.nodup_pendingRange (h : g.Listing) (now : ℕ) (minIdle : ℤ) (count : ℕ) :
    ((g.pendingRange now minIdle count).map PendingInfo.message_id).Nodup := by
  rw [pendingRange, List.map_map]
  exact h.ids.sublist (((List.take_sublist _ _).trans List.filter_sublist).map _)

/-- `XCLAIM` of rows below the limit, each named once. -/
theorem Within.claim (h : g.Within limit id n) {stream : List Message} {now : ℕ} {minIdle : ℤ}
    {consumer : Str} {ids : List StreamId} (hids : ids.Nodup)
    (hbelow : ∀ p ∈ g.pel, p.id ∈ ids → idle now minIdle p = true → (p.deliveries : ℤ) < limit)
    {k : ℕ} (hk : k = 0 ∨ k = copies id (g.claim stream now minIdle consumer ids).2) :
    (g.claim stream now minIdle consumer ids).1.Within limit id (n + k) := by
  have hclaim := claimed_claim g stream now minIdle consumer id ids
  have hlisting := h.toListing.claim stream now minIdle consumer ids
  generalize g.claim stream now minIdle consumer ids = acc at hclaim hlisting hk
  have hone : copies id acc.2 ≤ 1 :=
    hclaim.named.trans (List.nodup_iff_count_le_one.mp hids id)
  -- a claimed row was below the limit
  have hroom : 0 < copies id acc.2 → ∀ p ∈ g.pel, p.id = id → (p.deliveries : ℤ) < limit := by
    intro hpos p hp hpid
    obtain ⟨p₀, hp₀, hid₀, hidle⟩ := hclaim.idle hpos
    obtain rfl := List.inj_on_of_nodup_map h.ids hp hp₀ (hpid.trans hid₀.symm)
    have hmem : id ∈ ids := List.count_pos_iff.mp (hpos.trans_le hclaim.named)
    exact hbelow p hp (by rw [hpid]; exact hmem) hidle
  refine ⟨hlisting, fun hlt => ?_, ?_, fun p' hp' hid => ?_⟩
  · rw [hclaim.lastDelivered] at hlt
    by_cases hpos : 0 < copies id acc.2
    · obtain ⟨p, hp, hpid, -⟩ := hclaim.idle hpos
      exact absurd (h.delivered p hp) (by rw [hpid]; exact not_le.mpr hlt)
    · have := h.unread hlt
      omega
  · by_cases hpos : 0 < copies id acc.2
    · obtain ⟨p, hp, hpid, -⟩ := hclaim.idle hpos
      have hlt := hroom hpos p hp hpid
      have := (h.pending p hp hpid).1
      omega
    · have := h.bound
      omega
  · obtain ⟨p, hp, hpid, hdeliveries, -⟩ := hclaim.counted p' hp' hid
    have hpending := h.pending p hp hpid
    by_cases hpos : 0 < copies id acc.2
    · have := hroom hpos p hp hpid
      omega
    · omega

end Group

end SecurityAudit
