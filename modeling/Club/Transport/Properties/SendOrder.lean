import Club.Transport.Properties.Integrity
import Club.Transport.Properties.ReliableOrder
import Club.Transport.Properties.UnreliableOrder

/-!
Delivery in send order. Over every run of two endpoints, while neither number
space wraps around, the payloads one endpoint hands to its reliable callback
are, in order, the first of the data its peer passed to `send_reliable` after
its one `rendezvous_connect`; those it hands to its unreliable callback are some
of the data its peer passed to `send_unreliable`, in call order.

Both come from facts proved apart. On its own, the receiving endpoint calls its
reliable callback with the successors of its sync number and its unreliable
callback with increasing numbers (`ReliableInv`, `UnreliableInv`); across the
link, `Receiver` ties each number to the message the peer numbered under it.
-/

namespace Club.Transport

/-- The reliable callback's calls a log records: number and payload, in
order. -/
def reliableDeliveries : List Obs → List (SequenceNumber × List UInt8)
  | [] => []
  | .reliable sn p :: os => (sn, p) :: reliableDeliveries os
  | _ :: os => reliableDeliveries os

/-- The unreliable callback's calls a log records: number and payload, in
order. -/
def unreliableDeliveries : List Obs → List (SequenceNumber × List UInt8)
  | [] => []
  | .unreliable sn p :: os => (sn, p) :: unreliableDeliveries os
  | _ :: os => unreliableDeliveries os

section Deliveries

variable {os : List Obs} {x : SequenceNumber × List UInt8}

theorem map_fst_reliableDeliveries (os : List Obs) :
    (reliableDeliveries os).map Prod.fst = reliableSns os := by
  induction os using reliableDeliveries.induct <;> simp [reliableDeliveries, reliableSns, *]

theorem map_fst_unreliableDeliveries (os : List Obs) :
    (unreliableDeliveries os).map Prod.fst = unreliableSns os := by
  induction os using unreliableDeliveries.induct <;> simp [unreliableDeliveries, unreliableSns, *]

theorem mem_of_mem_reliableDeliveries (h : x ∈ reliableDeliveries os) : Obs.reliable x.1 x.2 ∈ os := by
  induction os using reliableDeliveries.induct with
  | case1 => cases h
  | case2 sn p os ih =>
    rcases List.mem_cons.mp h with rfl | h
    exacts [.head _, .tail _ (ih h)]
  | case3 o os ho ih => exact .tail _ (ih (by simpa [reliableDeliveries, ho] using h))

theorem mem_of_mem_unreliableDeliveries (h : x ∈ unreliableDeliveries os) :
    Obs.unreliable x.1 x.2 ∈ os := by
  induction os using unreliableDeliveries.induct with
  | case1 => cases h
  | case2 sn p os ih =>
    rcases List.mem_cons.mp h with rfl | h
    exacts [.head _, .tail _ (ih h)]
  | case3 o os ho ih => exact .tail _ (ih (by simpa [unreliableDeliveries, ho] using h))

theorem mem_of_mem_syncedSns {sn : SequenceNumber} (h : sn ∈ syncedSns os) : Obs.synced sn ∈ os := by
  induction os using syncedSns.induct with
  | case1 => cases h
  | case2 s os ih =>
    rcases List.mem_cons.mp h with rfl | h
    exacts [.head _, .tail _ (ih h)]
  | case3 o os ho ih => exact .tail _ (ih (by simpa [syncedSns, ho] using h))

end Deliveries

section Lists

variable {β : Type}

/-- A list whose every entry is at its own place in `L` is a prefix of `L`. -/
theorem prefix_of_getElem? {l L : List β} (h : ∀ i < l.length, L[i]? = l[i]?) : l <+: L := by
  refine List.prefix_iff_eq_take.mpr (List.ext_getElem? fun i => ?_)
  by_cases hi : i < l.length
  · rw [List.getElem?_take_of_lt hi, h i hi]
  · rw [List.getElem?_eq_none (by omega), List.getElem?_eq_none (by simp; omega)]

/-- Entries read off `l` at strictly increasing places form a sublist of `l`. -/
theorem sublist_of_getElem? {l : List β} {xs : List (Nat × β)} (hp : xs.Pairwise (·.1 < ·.1))
    (h : ∀ x ∈ xs, l[x.1]? = some x.2) : (xs.map Prod.snd).Sublist l := by
  have hb : ∀ x ∈ xs, x.1 < l.length := fun x hx => (List.getElem?_eq_some_iff.mp (h x hx)).1
  -- the places, as indices into `l`
  have his : (xs.pmap (fun x hx => (⟨x.1, hx⟩ : Fin l.length)) hb).Pairwise (· < ·) :=
    hp.pmap hb fun _ _ _ _ hlt => hlt
  have hmap := List.map_getElem_sublist his
  rw [List.map_pmap] at hmap
  convert hmap using 1
  rw [← List.pmap_eq_map _ _ _ hb]
  exact List.pmap_congr_left _ fun x hx _ _ => (List.getElem?_eq_some_iff.mp (h x hx)).2.symm

end Lists

namespace SocketImpl

variable {α : Type} [AckSet α] {uhist : List (List UInt8)} {m : Machine α}

/-- A reachable endpoint whose peer numbered one sync message and then the
data `ds` handed its reliable callback the first of `ds`, in order. -/
theorem reliable_prefix_of_receiver (hr : Reachable m) {ds : List (List UInt8)}
    (hrec : Receiver ((.sync, []) :: ds.map (.reliable, ·)) uhist m) :
    (reliableDeliveries m.log).map Prod.snd <+: ds := by
  -- a delivery's number is one past the place of its payload in `ds`
  have hdel : ∀ x ∈ reliableDeliveries m.log, ∃ j, x.1.toNat = j + 1 ∧ ds[j]? = some x.2 := by
    intro x hx
    have hx := hrec.delivered x.1 x.2 (mem_of_mem_reliableDeliveries hx)
    rcases hn : x.1.toNat with _ | j <;> rw [hn] at hx
    · simp at hx
    · exact ⟨j, rfl, by simpa using hx⟩
  have hinv := reliableInv_reachable hr
  unfold ReliableInv at hinv
  split at hinv
  · rw [List.map_eq_nil_iff.mp ((map_fst_reliableDeliveries m.log).trans hinv.2.1)]
    exact List.nil_prefix
  obtain ⟨s0, k, hs, hsns, -⟩ := hinv
  -- the endpoint synced to the peer's one sync message, numbered 0
  have hs0 : s0.toNat = 0 := by
    obtain ⟨P, hP⟩ := hrec.synced s0 (mem_of_mem_syncedSns (by rw [hs]; exact .head _))
    rcases hn : s0.toNat with _ | j
    · rfl
    · rw [hn] at hP; simp at hP
  -- so the `i`-th delivery carries the number `i + 1`
  have hnum : ∀ i x, (reliableDeliveries m.log)[i]? = some x → x.1.toNat = (i + 1) % 2 ^ 32 := by
    intro i x hx
    have hfst := congrArg (·[i]?) ((map_fst_reliableDeliveries m.log).trans hsns)
    simp only [List.getElem?_map, hx, Option.map_some'] at hfst
    have hi : i < k := by
      by_contra hc
      rw [List.getElem?_eq_none (by simpa using hc)] at hfst
      cases hfst
    rw [List.getElem?_iterate _ _ _ _ hi, Option.some_inj, ← Function.iterate_succ_apply] at hfst
    rw [hfst, toNat_iterate_succ, hs0, Nat.zero_add]
  refine prefix_of_getElem? fun i hi => ?_
  rw [List.length_map] at hi
  rw [List.getElem?_map, List.getElem?_eq_getElem hi, Option.map_some']
  obtain ⟨j, hj, hd⟩ := hdel _ (List.getElem_mem hi)
  have hn := hnum i _ (List.getElem?_eq_getElem hi)
  -- no number wraps around: the delivery at place 2 ^ 32 - 1 would carry 0
  have hwrap : i + 1 < 2 ^ 32 := by
    by_contra hc
    have hi' : 2 ^ 32 - 1 < (reliableDeliveries m.log).length := by omega
    obtain ⟨j', hj', -⟩ := hdel _ (List.getElem_mem hi')
    have := hnum _ _ (List.getElem?_eq_getElem hi')
    omega
  obtain rfl : j = i := by omega
  exact hd

/-- While its peer numbered fewer than 2 ^ 32 unreliable messages, a reachable
endpoint handed its unreliable callback some of their data, in the order the
peer numbered them. -/
theorem unreliable_sublist_of_receiver {hist : List (MessageType × List UInt8)} (hr : Reachable m)
    (hrec : Receiver hist uhist m) (hu : uhist.length < 2 ^ 32) :
    ((unreliableDeliveries m.log).map Prod.snd).Sublist uhist := by
  have hget : ∀ x ∈ unreliableDeliveries m.log, 0 < x.1.toNat ∧ uhist[x.1.toNat - 1]? = some x.2 :=
    fun x hx => (hrec.deliveredUnreliable hu x.1 x.2 (mem_of_mem_unreliableDeliveries hx)).getElem?_pred hu
  -- the callback sees increasing numbers
  have hinc : ((unreliableDeliveries m.log).map Prod.fst).Pairwise (· < ·) := by
    have hinv := unreliableInv_reachable hr
    unfold UnreliableInv at hinv
    rw [map_fst_unreliableDeliveries]
    split at hinv
    · rw [hinv.2.1]
      exact .nil
    · obtain ⟨s0, -, -, hp, -⟩ := hinv
      exact (List.pairwise_cons.mp hp).2
  have hs : (((unreliableDeliveries m.log).map fun x => (x.1.toNat - 1, x.2)).map Prod.snd).Sublist uhist := by
    refine sublist_of_getElem? (List.pairwise_map.mpr ((List.pairwise_map.mp hinc).imp_of_mem
      fun {a b} ha hb (hlt : a.1.toNat < b.1.toNat) => ?_)) fun y hy => ?_
    · have := (hget _ ha).1
      have := (hget _ hb).1
      omega
    · obtain ⟨x, hx, rfl⟩ := List.mem_map.mp hy
      exact (hget x hx).2
  simpa [List.map_map, Function.comp_def] using hs

end SocketImpl

open SocketImpl

section

variable {α : Type} [AckSet α]
  (hcodec : ∀ (a : α) (rest : List UInt8), AckSet.decode (AckSet.encode a ++ rest) = some (a, rest))
  (hroom : AckRoom α)
include hcodec hroom

/-- Over every run of two endpoints from their construction, with any loss,
duplication and reordering of their datagrams: if one endpoint numbered one
sync message, by `rendezvous_connect`, and then the data `ds` of its
`send_reliable` calls, the payloads the other hands to its reliable callback
are the first of `ds`, in call order. This holds while the sender has numbered
fewer than 2 ^ 32 messages and every message it sends is shorter than 2 ^ 16
bytes, and when the ack sets read back as written and leave room for a part. -/
theorem reliable_delivered_in_send_order {evs : List Link.Event} {w : Link α}
    (h : Link.run Link.init evs = some w) (side : Side) (hfit : ∀ ev ∈ evs, ev.Fits side.other)
    (hlen : (evs.flatMap (Link.Event.numbered side.other)).length < 2 ^ 32) {ds : List (List UInt8)}
    (hsent : evs.flatMap (Link.Event.numbered side.other) = (.sync, []) :: ds.map (.reliable, ·)) :
    (reliableDeliveries (w.get side).log).map Prod.snd <+: ds := by
  have hd := (delivery_run hcodec hroom (delivery_init side) h hfit (by simpa using hlen)).receiver
  rw [List.nil_append, hsent] at hd
  exact reliable_prefix_of_receiver ((Link.reachable_run .init h).get side) hd

/-- Over every run of two endpoints from their construction, with any loss,
duplication and reordering of their datagrams: the payloads one endpoint hands
to its unreliable callback are some of the data the other passed to
`send_unreliable`, in call order. This holds while the sender has numbered
fewer than 2 ^ 32 messages of each kind and every message it sends is shorter
than 2 ^ 16 bytes, and when the ack sets read back as written and leave room
for a part. -/
theorem unreliable_delivered_in_send_order {evs : List Link.Event} {w : Link α}
    (h : Link.run Link.init evs = some w) (side : Side) (hfit : ∀ ev ∈ evs, ev.Fits side.other)
    (hlen : (evs.flatMap (Link.Event.numbered side.other)).length < 2 ^ 32)
    (hulen : (evs.flatMap (Link.Event.numberedUnreliable side.other)).length < 2 ^ 32) :
    ((unreliableDeliveries (w.get side).log).map Prod.snd).Sublist
      (evs.flatMap (Link.Event.numberedUnreliable side.other)) := by
  have hd := (delivery_run hcodec hroom (delivery_init side) h hfit (by simpa using hlen)).receiver
  rw [List.nil_append, List.nil_append] at hd
  exact unreliable_sublist_of_receiver ((Link.reachable_run .init h).get side) hd hulen

end

set_option maxRecDepth 20000 in
/-- Both endpoints connect; one sends [5, 6] and then [9] reliably, and the
other takes in only the datagram that carries [5, 6]: its callback has had
[5, 6], the first of what was sent. -/
theorem reliable_delivered_prefix_after_two_sends :
    let evs : List Link.Event :=
      [.endpoint .a (.call (.rendezvousConnect ⟨.host 2, 7⟩)),
       .endpoint .b (.call (.rendezvousConnect ⟨.host 1, 7⟩)),
       .endpoint .a (.punched 0 (.ok ⟨.host 2, 7⟩)), .endpoint .a .resume, .endpoint .a .returned,
       .endpoint .b (.punched 0 (.ok ⟨.host 1, 7⟩)), .endpoint .b .resume, .endpoint .b .returned,
       .endpoint .b (.call .receiveReliable),
       .endpoint .a (.sent none), .endpoint .a (.timerExpired false),
       .endpoint .a (.call (.sendReliable [5, 6])),
       .endpoint .a (.sent none), .endpoint .a (.timerExpired false),
       .deliver .b ⟨.host 1, 7⟩ 3, .endpoint .b .resume, .endpoint .b .resume,
       .endpoint .a (.call (.sendReliable [9]))]
    ∃ w : Link RecentAckSet, Link.run Link.init evs = some w ∧
      (reliableDeliveries (w.get .b).log).map Prod.snd = [[5, 6]] ∧
      (reliableDeliveries (w.get .b).log).map Prod.snd <+: [[5, 6], [9]] := by
  intro evs
  obtain ⟨w, hw, hd⟩ : ∃ w : Link RecentAckSet, Link.run Link.init evs = some w ∧
      (reliableDeliveries (w.get .b).log).map Prod.snd = [[5, 6]] := ⟨_, rfl, by decide⟩
  exact ⟨w, hw, hd, reliable_delivered_in_send_order RecentAckSet.decode_encode RecentAckSet.ackRoom hw .b
    (by decide) (by decide) (by decide)⟩

set_option maxRecDepth 20000 in
/-- Both endpoints connect; one sends [7, 8] and then [9] unreliably, and the
other takes in only the datagram that carries [7, 8]: its callback has had
[7, 8], some of what was sent. -/
theorem unreliable_delivered_after_two_sends :
    let evs : List Link.Event :=
      [.endpoint .a (.call (.rendezvousConnect ⟨.host 2, 7⟩)),
       .endpoint .b (.call (.rendezvousConnect ⟨.host 1, 7⟩)),
       .endpoint .a (.punched 0 (.ok ⟨.host 2, 7⟩)), .endpoint .a .resume, .endpoint .a .returned,
       .endpoint .b (.punched 0 (.ok ⟨.host 1, 7⟩)), .endpoint .b .resume, .endpoint .b .returned,
       .endpoint .b (.call .receiveUnreliable),
       .endpoint .a (.sent none), .endpoint .a (.timerExpired false),
       .endpoint .a (.call (.sendUnreliable [7, 8])),
       .endpoint .a (.sent none), .endpoint .a (.timerExpired false),
       .deliver .b ⟨.host 1, 7⟩ 3, .endpoint .b .resume, .endpoint .b .resume,
       .endpoint .a (.call (.sendUnreliable [9]))]
    ∃ w : Link RecentAckSet, Link.run Link.init evs = some w ∧
      (unreliableDeliveries (w.get .b).log).map Prod.snd = [[7, 8]] ∧
      ((unreliableDeliveries (w.get .b).log).map Prod.snd).Sublist
        (evs.flatMap (Link.Event.numberedUnreliable Side.b.other)) := by
  intro evs
  obtain ⟨w, hw, hd⟩ : ∃ w : Link RecentAckSet, Link.run Link.init evs = some w ∧
      (unreliableDeliveries (w.get .b).log).map Prod.snd = [[7, 8]] := ⟨_, rfl, by decide⟩
  exact ⟨w, hw, hd, unreliable_delivered_in_send_order RecentAckSet.decode_encode RecentAckSet.ackRoom hw .b
    (by decide) (by decide) (by decide)⟩

end Club.Transport
