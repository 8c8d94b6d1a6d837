import Mathlib.Data.List.Nodup
import Mathlib.Tactic.Common

/-!
# Joining a feed late

A publisher keeps the last item of every key and then offers each item to those who
listen.  A subscriber that joins meanwhile listens first and reads what is kept after
that; it is sent what it read, then what it heard.
-/

namespace AimDb.Feed

variable {Item Key : Type*}

structure Subscriber (Item : Type*) where
  begun : List Item
  ahead : Option Item
  offer : Option Item
  early : Bool
  transit : List Item
  read : Bool
  left : List Item
  live : Bool
  sent : List Item
  events : List Item
  /-- Items whose offering began since the subscriber read. -/
  since : List Item

def Subscriber.taken (f : Subscriber Item) : List Item := f.begun ++ f.ahead.toList

variable [DecidableEq Key] (key : Item → Key) (accepts : Key → Bool) (shows : Item → Bool)

def ofKey (k : Key) (items : List Item) : List Item := items.filter fun item => key item = k

structure Latest (taken kept : List Item) : Prop where
  nodup : (kept.map key).Nodup
  last : ∀ k, accepts k = true → ∀ item, (ofKey key k taken).getLast? = some item →
    item ∈ kept

/-- What can happen to a subscriber.  What it reads is sent unless it cannot be shown. -/
inductive Step (f : Subscriber Item) : Subscriber Item → Prop
  | take (item : Item) : f.ahead = none → f.early = false → Step f { f with ahead := some item }
  | begin {item : Item} : f.ahead = some item → f.offer = none → f.early = false →
      Step f { f with
        begun := f.begun ++ [item]
        ahead := none
        offer := some item
        since := if f.read then f.since ++ [item] else f.since }
  | hear {item : Item} : f.offer = some item →
      Step f { f with
        offer := none
        transit := f.transit ++ if accepts (key item) then [item] else [] }
  | miss {item : Item} : f.offer = some item → f.early = true → Step f { f with offer := none }
  | settle : f.offer = none → Step f { f with early := false }
  | read {kept : List Item} : f.read = false → Latest key accepts f.taken kept →
      Step f { f with read := true, left := kept }
  | present {item : Item} {left : List Item} : f.live = false → f.left = item :: left →
      Step f { f with left, sent := f.sent ++ if shows item then [item] else [] }
  | join : f.read = true → f.left = [] → Step f { f with live := true }
  | forward {item : Item} {transit : List Item} : f.live = true → f.transit = item :: transit →
      Step f { f with transit, sent := f.sent ++ [item], events := f.events ++ [item] }

/-- The subscriber has missed some items that began before it listened and has heard all
since; the last item of every accepted key is among those it read or those it heard. -/
structure Follows (f : Subscriber Item) (missed heard shown : List Item) : Prop where
  begun : f.begun = missed ++ heard ++ f.offer.toList
  transit : f.events ++ f.transit = heard.filter fun item => accepts (key item)
  sent : f.sent = shown.filter shows ++ f.events
  since : f.since <:+ heard ++ f.offer.toList
  early : f.early = true → f.since = [] ∧ f.ahead = none ∧ (f.offer ≠ none → heard = [])
  unread : f.read = false → f.left = [] ∧ shown = [] ∧ f.since = []
  bursting : f.live = false → f.events = []
  live : f.live = true → f.read = true ∧ f.left = []
  nodup : ((shown ++ f.left).map key).Nodup
  covers : f.read = true → ∀ k, accepts k = true → ∀ item,
    (ofKey key k f.taken).getLast? = some item →
    item ∈ shown ++ f.left ∨
      f.early = false ∧ ofKey key k (heard ++ f.offer.toList ++ f.ahead.toList) ≠ []

variable {key accepts shows} {f after : Subscriber Item} {missed heard shown : List Item} {k : Key}

theorem ofKey_append (items more : List Item) :
    ofKey key k (items ++ more) = ofKey key k items ++ ofKey key k more := List.filter_append ..

theorem ofKey_other {item : Item} (different : key item ≠ k) : ofKey key k [item] = [] := by
  simp [ofKey, different]

theorem ofKey_same (item : Item) : ofKey key (key item) [item] = [item] := by
  simp [ofKey]

theorem follows_initial (begun : f.begun = missed ++ f.offer.toList) (transit : f.transit = [])
    (unread : f.read = false) (left : f.left = []) (live : f.live = false) (sent : f.sent = [])
    (events : f.events = []) (since : f.since = []) (early : f.early = true → f.ahead = none) :
    Follows key accepts shows f missed [] [] where
  begun := by simpa using begun
  transit := by rw [events, transit]; rfl
  sent := by rw [sent, events]; rfl
  since := since ▸ List.nil_suffix
  early := fun isEarly => ⟨since, early isEarly, fun _ => rfl⟩
  unread := fun _ => ⟨left, rfl, since⟩
  bursting := fun _ => events
  live := fun isLive => by simp [live] at isLive
  nodup := by rw [left]; exact List.nodup_nil
  covers := fun read => by simp [unread] at read

theorem Follows.take (follows : Follows key accepts shows f missed heard shown) (item : Item)
    (free : f.ahead = none) (late : f.early = false) :
    Follows key accepts shows { f with ahead := some item } missed heard shown where
  begun := follows.begun
  transit := follows.transit
  sent := follows.sent
  since := follows.since
  early := fun isEarly => absurd isEarly (by simp [late])
  unread := follows.unread
  bursting := follows.bursting
  live := follows.live
  nodup := follows.nodup
  covers := by
    intro read k accepted last isLast
    have grows : ofKey key k (f.begun ++ [item]) = ofKey key k f.taken ++ ofKey key k [item] := by
      rw [ofKey_append, Subscriber.taken, free, Option.toList_none, List.append_nil]
    by_cases same : key item = k
    · subst same
      refine .inr ⟨late, ?_⟩
      simp [ofKey_append, ofKey_same]
    · rw [Subscriber.taken, Option.toList_some, grows, ofKey_other same, List.append_nil] at isLast
      rcases follows.covers read k accepted last isLast with shown | ⟨_, nonempty⟩
      · exact .inl shown
      · refine .inr ⟨late, fun empty => nonempty ?_⟩
        rw [ofKey_append, List.append_eq_nil_iff] at empty
        rw [free, Option.toList_none, List.append_nil]
        exact empty.1

theorem Follows.begin (follows : Follows key accepts shows f missed heard shown) {item : Item}
    (isAhead : f.ahead = some item) (free : f.offer = none) (late : f.early = false) :
    Follows key accepts shows { f with
      begun := f.begun ++ [item]
      ahead := none
      offer := some item
      since := if f.read then f.since ++ [item] else f.since } missed heard shown where
  begun := by
    have before := follows.begun
    rw [free, Option.toList_none, List.append_nil] at before
    rw [before]
    rfl
  transit := follows.transit
  sent := follows.sent
  since := by
    have before := follows.since
    rw [free, Option.toList_none, List.append_nil] at before
    obtain ⟨rest, isSuffix⟩ := before
    split
    · exact ⟨rest, by rw [← isSuffix, List.append_assoc]; rfl⟩
    · rename_i unread
      rw [(follows.unread (by simpa using unread)).2.2]
      exact List.nil_suffix
  early := fun isEarly => absurd isEarly (by simp [late])
  unread := by
    intro unread
    have isUnread : f.read = false := unread
    obtain ⟨left, none, since⟩ := follows.unread unread
    exact ⟨left, none, by simpa [isUnread] using since⟩
  bursting := follows.bursting
  live := follows.live
  nodup := follows.nodup
  covers := by
    intro read k accepted last isLast
    have same : f.taken = f.begun ++ [item] := by rw [Subscriber.taken, isAhead]; rfl
    simp only [Subscriber.taken, Option.toList_none, List.append_nil] at isLast
    rw [← same] at isLast
    have covered := follows.covers read k accepted last isLast
    rw [free, isAhead, Option.toList_none, List.append_nil] at covered
    simpa using covered

theorem Follows.hear (follows : Follows key accepts shows f missed heard shown) {item : Item}
    (offered : f.offer = some item) :
    Follows key accepts shows { f with
      offer := none
      transit := f.transit ++ if accepts (key item) then [item] else [] }
      missed (heard ++ [item]) shown where
  begun := by
    have before := follows.begun
    rw [offered] at before
    simpa using before
  transit := by
    rw [List.filter_append, ← follows.transit, List.append_assoc]
    congr 2
    simp [List.filter_cons]
  sent := follows.sent
  since := by
    have before := follows.since
    rw [offered] at before
    simpa using before
  early := fun isEarly =>
    ⟨(follows.early isEarly).1, (follows.early isEarly).2.1, fun offers => absurd rfl offers⟩
  unread := follows.unread
  bursting := follows.bursting
  live := follows.live
  nodup := follows.nodup
  covers := by
    intro read k accepted last isLast
    have covered := follows.covers read k accepted last isLast
    rw [offered] at covered
    simpa using covered

theorem Follows.miss (follows : Follows key accepts shows f missed heard shown) {item : Item}
    (offered : f.offer = some item) (early : f.early = true) :
    Follows key accepts shows { f with offer := none } (missed ++ [item]) heard shown := by
  obtain ⟨since, ahead, unheard⟩ := follows.early early
  obtain rfl := unheard (by simp [offered])
  refine ⟨?_, follows.transit, follows.sent, since ▸ List.nil_suffix,
    fun _ => ⟨since, ahead, fun offers => absurd rfl offers⟩, follows.unread, follows.bursting,
    follows.live, follows.nodup, ?_⟩
  · have before := follows.begun
    rw [offered] at before
    simpa using before
  · intro read k accepted last isLast
    rcases follows.covers read k accepted last isLast with shown | ⟨late, _⟩
    · exact .inl shown
    · exact absurd late (by simp [early])

theorem Follows.settle (follows : Follows key accepts shows f missed heard shown) :
    Follows key accepts shows { f with early := false } missed heard shown :=
  ⟨follows.begun, follows.transit, follows.sent, follows.since, fun isEarly => (by cases isEarly),
    follows.unread, follows.bursting, follows.live, follows.nodup,
    fun read k accepted last isLast =>
      (follows.covers read k accepted last isLast).imp id fun heard => ⟨rfl, heard.2⟩⟩

theorem Follows.read (follows : Follows key accepts shows f missed heard shown) {kept : List Item}
    (unread : f.read = false) (latest : Latest key accepts f.taken kept) :
    Follows key accepts shows { f with read := true, left := kept } missed heard shown := by
  obtain ⟨_, rfl, since⟩ := follows.unread unread
  have isBursting : f.live = false := by
    by_contra live
    have isRead := (follows.live (by simpa using live)).1
    rw [unread] at isRead
    cases isRead
  exact ⟨follows.begun, follows.transit, follows.sent, follows.since, follows.early,
    fun isUnread => (by cases isUnread), follows.bursting,
    fun live => absurd live (by simp [isBursting]), latest.nodup,
    fun _ k accepted last isLast => .inl (latest.last k accepted last isLast)⟩

theorem Follows.present (follows : Follows key accepts shows f missed heard shown) {item : Item}
    {left : List Item} (bursting : f.live = false) (isLeft : f.left = item :: left) :
    Follows key accepts shows
      { f with left, sent := f.sent ++ if shows item then [item] else [] }
      missed heard (shown ++ [item]) where
  begun := follows.begun
  transit := follows.transit
  sent := by
    have before := follows.sent
    rw [follows.bursting bursting, List.append_nil] at before
    rw [follows.bursting bursting, List.append_nil, List.filter_append, before]
    simp [List.filter_cons]
  since := follows.since
  early := follows.early
  unread := fun unread => by
    have none := (follows.unread unread).1
    rw [isLeft] at none
    cases none
  bursting := follows.bursting
  live := fun live => absurd live (by simp [bursting])
  nodup := by
    have before := follows.nodup
    rw [isLeft] at before
    simpa using before
  covers := by
    intro read k accepted last isLast
    have covered := follows.covers read k accepted last isLast
    rw [isLeft] at covered
    simpa using covered

theorem Follows.join (follows : Follows key accepts shows f missed heard shown)
    (read : f.read = true) (left : f.left = []) :
    Follows key accepts shows { f with live := true } missed heard shown :=
  ⟨follows.begun, follows.transit, follows.sent, follows.since, follows.early, follows.unread,
    fun bursting => (by cases bursting), fun _ => ⟨read, left⟩, follows.nodup, follows.covers⟩

theorem Follows.forward (follows : Follows key accepts shows f missed heard shown) {item : Item}
    {transit : List Item} (live : f.live = true) (queued : f.transit = item :: transit) :
    Follows key accepts shows
      { f with transit, sent := f.sent ++ [item], events := f.events ++ [item] }
      missed heard shown := by
  refine ⟨follows.begun, ?_, ?_, follows.since, follows.early, follows.unread,
    fun bursting => absurd live (by simp [show f.live = false from bursting]), follows.live,
    follows.nodup, follows.covers⟩
  · rw [← follows.transit, queued, List.append_assoc]
    rfl
  · rw [follows.sent, List.append_assoc]

/-- Nothing makes a subscriber lose track. -/
theorem Follows.step (follows : Follows key accepts shows f missed heard shown)
    (stepped : Step key accepts shows f after) :
    ∃ missed heard shown, Follows key accepts shows after missed heard shown := by
  cases stepped with
  | take item free late => exact ⟨_, _, _, follows.take item free late⟩
  | begin isAhead free late => exact ⟨_, _, _, follows.begin isAhead free late⟩
  | hear offered => exact ⟨_, _, _, follows.hear offered⟩
  | miss offered early => exact ⟨_, _, _, follows.miss offered early⟩
  | settle _ => exact ⟨_, _, _, follows.settle⟩
  | read unread latest => exact ⟨_, _, _, follows.read unread latest⟩
  | present bursting isLeft => exact ⟨_, _, _, follows.present bursting isLeft⟩
  | join read left => exact ⟨_, _, _, follows.join read left⟩
  | forward live queued => exact ⟨_, _, _, follows.forward live queued⟩

structure CaughtUp (key : Item → Key) (shows : Item → Bool) (f : Subscriber Item) (k : Key) :
    Prop where
  consecutive : ofKey key k f.events <:+ ofKey key k f.begun
  complete : ofKey key k f.since <:+ ofKey key k f.events
  last : ∀ item, (ofKey key k f.begun).getLast? = some item → shows item = true →
    (ofKey key k f.sent).getLast? = some item

theorem ofKey_filter (accepted : accepts k = true) (items : List Item) :
    ofKey key k (items.filter fun item => accepts (key item)) = ofKey key k items := by
  rw [ofKey, ofKey, List.filter_filter]
  apply List.filter_congr
  intro item _
  by_cases same : key item = k
  · simp [same, accepted]
  · simp [same]

theorem ofKey_of_nodup {items : List Item} (nodup : (items.map key).Nodup) {item : Item}
    (mem : item ∈ items) : ofKey key (key item) items = [item] := by
  induction items with
  | nil => cases mem
  | cons first items inductionHypothesis =>
      rw [List.map_cons, List.nodup_cons] at nodup
      rcases List.mem_cons.mp mem with rfl | later
      · have others : ofKey key (key item) items = [] := by
          rw [ofKey, List.filter_eq_nil_iff]
          intro other isOther same
          exact nodup.1 (of_decide_eq_true same ▸ List.mem_map_of_mem isOther)
        rw [← List.singleton_append, ofKey_append, ofKey_same, others, List.append_nil]
      · have different : key first ≠ key item := fun same =>
          nodup.1 (same ▸ List.mem_map_of_mem later)
        rw [← List.singleton_append, ofKey_append, ofKey_other different, List.nil_append,
          inductionHypothesis nodup.2 later]

theorem Follows.caughtUp (follows : Follows key accepts shows f missed heard shown)
    (settled : f.offer = none) (idle : f.ahead = none) (drained : f.transit = [])
    (live : f.live = true) (accepted : accepts k = true) : CaughtUp key shows f k := by
  have begun := follows.begun
  have events := follows.transit
  have since := follows.since
  rw [settled, Option.toList_none, List.append_nil] at begun since
  rw [drained, List.append_nil] at events
  have sameEvents : ofKey key k f.events = ofKey key k heard := by
    rw [events, ofKey_filter accepted]
  have sent : ofKey key k f.sent = ofKey key k (shown.filter shows) ++ ofKey key k heard := by
    rw [follows.sent, ofKey_append, sameEvents]
  have split : ofKey key k f.begun = ofKey key k missed ++ ofKey key k heard := by
    rw [begun, ofKey_append]
  refine ⟨?_, ?_, ?_⟩
  · rw [sameEvents, split]
    exact List.suffix_append ..
  · rw [sameEvents]
    exact since.filter _
  · intro item isLast visible
    rw [sent]
    by_cases unheard : ofKey key k heard = []
    · -- The last item was missed, so it was read.
      obtain ⟨read, left⟩ := follows.live live
      have isTaken : (ofKey key k f.taken).getLast? = some item := by
        rw [Subscriber.taken, idle, Option.toList_none, List.append_nil, isLast]
      rcases follows.covers read k accepted item isTaken with isShown | ⟨_, wasHeard⟩
      · rw [left, List.append_nil] at isShown
        have nodup := follows.nodup
        rw [left, List.append_nil] at nodup
        have isKey : key item = k := by
          have mem := List.mem_of_getLast? isLast
          exact of_decide_eq_true (List.mem_filter.mp mem).2
        subst isKey
        have still : ((shown.filter shows).map key).Nodup :=
          nodup.sublist (List.filter_sublist.map _)
        rw [unheard, List.append_nil,
          ofKey_of_nodup still (List.mem_filter.mpr ⟨isShown, visible⟩)]
        rfl
      · rw [settled, idle, Option.toList_none, List.append_nil, List.append_nil] at wasHeard
        exact absurd unheard wasHeard
    · rw [split, List.getLast?_append_of_ne_nil _ unheard] at isLast
      rw [List.getLast?_append_of_ne_nil _ unheard, isLast]

end AimDb.Feed
