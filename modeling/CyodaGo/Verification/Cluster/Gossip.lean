import CyodaGo.Model.Cluster.Gossip

/-! # Framing of topic broadcasts

The length that a peer announces is added to the position behind it before it is compared
with the length of the message. -/

namespace CyodaGo.Gossip

open Wrapped (wrap Fits)

/-- The announced end of the topic as the code computes it. -/
theorem exists_stop (n len : ℤ) :
    ∃ k, wrap (n + wrap len) = n + len - 2 ^ 64 * k ∧ Fits (wrap (n + wrap len)) := by
  rw [add_comm n, Wrapped.wrap_wrap_add, add_comm len]
  exact Wrapped.exists_wrap (n + len)

theorem slice_of_le {bs : Bytes} {lo hi : ℕ} (hle : lo ≤ hi) (hhi : hi ≤ bs.length) :
    slice bs lo hi = .ok ((bs.take hi).drop lo) := by
  rw [slice, if_pos (by omega)]
  rfl

open Uvarint

/-- The end of the announced topic is a 64-bit integer, or nothing is announced. -/
def Addressable (msg : Bytes) : Prop :=
  (read msg).2 ≤ 0 ∨ (read msg).2 + (read msg).1.toNat < 2 ^ 63

instance : DecidablePred Addressable := fun msg =>
  inferInstanceAs (Decidable ((read msg).2 ≤ 0 ∨ _))

/-- The topic, of the announced length, and the payload are the parts of the message after
the varint. -/
structure Splits (msg topic payload : Bytes) : Prop where
  announced : topic.length = (read msg).1.toNat
  parts : msg = msg.take (read msg).2.toNat ++ topic ++ payload

variable {msg : Bytes} {len : BitVec 64} {n : ℕ}

theorem decodeTopicMsg_of_malformed {k : ℤ} (hread : read msg = (len, k)) (hk : k ≤ 0) :
    decodeTopicMsg msg = .ok none := by
  simp only [decodeTopicMsg, hread, if_pos hk]
  rfl

theorem decodeTopicMsg_of_lt (hread : read msg = (len, (n : ℤ))) (hn : 0 < n)
    (hlt : n + len.toNat < 2 ^ 63) :
    decodeTopicMsg msg = if n + len.toNat ≤ msg.length then
      .ok (some ((msg.take (n + len.toNat)).drop n, msg.drop (n + len.toNat))) else .ok none := by
  have hstop : wrap (n + wrap len.toNat) = ((n + len.toNat : ℕ) : ℤ) := by
    obtain ⟨k, hk, hfits⟩ := exists_stop n len.toNat
    simp only [Fits] at hfits
    omega
  have hpos : ¬ (n : ℤ) ≤ 0 := by omega
  simp only [decodeTopicMsg, hread, if_neg hpos, hstop]
  split
  · rw [if_neg (by omega)]
    rfl
  · next hle =>
    have hle : n + len.toNat ≤ msg.length := by omega
    rw [if_pos hle, slice_of_le (by omega) hle, slice_of_le hle le_rfl, List.take_length]
    rfl

/-- The announced end wraps around to a position before the topic, which passes the check
against the length of the message. -/
theorem decodeTopicMsg_of_ge (hread : read msg = (len, (n : ℤ))) (hn : 0 < n)
    (hge : 2 ^ 63 ≤ n + len.toNat) :
    decodeTopicMsg msg = .error .sliceBoundsOutOfRange := by
  have hmax : (n : ℤ) ≤ maxLen := by simpa [hread] using read_le_maxLen msg
  have hlength : (n : ℤ) ≤ msg.length := by simpa [hread] using read_le_length msg
  have hlen := len.isLt
  have hstop : wrap (n + wrap len.toNat) = n + len.toNat - 2 ^ 64 := by
    obtain ⟨k, hk, hfits⟩ := exists_stop n len.toNat
    simp only [Fits, maxLen] at hfits hmax
    omega
  have hpos : ¬ (n : ℤ) ≤ 0 := by omega
  simp only [decodeTopicMsg, hread, if_neg hpos, hstop]
  rw [if_neg (by omega), slice, if_neg (by omega)]
  rfl

theorem splits_of_le (hread : read msg = (len, (n : ℤ)))
    (hle : n + len.toNat ≤ msg.length) :
    Splits msg ((msg.take (n + len.toNat)).drop n) (msg.drop (n + len.toNat)) := by
  refine ⟨?_, ?_⟩
  · rw [hread, List.length_drop, List.length_take, Nat.min_eq_left hle, Nat.add_sub_cancel_left]
  · have hfront : msg.take n = (msg.take (n + len.toNat)).take n := by
      rw [List.take_take, Nat.min_eq_left (by omega)]
    simp only [hread, Int.toNat_natCast]
    rw [hfront, List.take_append_drop, List.take_append_drop]

theorem encodeTopicMsg_eq_some {topic payload : Bytes}
    (h : encodeTopicMsg topic payload = .ok (some msg)) :
    topic.length ≤ maxTopicMsgSize ∧
      msg = put (BitVec.ofNat 64 topic.length) ++ topic ++ payload := by
  rw [encodeTopicMsg] at h
  split at h
  · cases h
  split at h
  · cases h
  · next hsize =>
    cases h
    exact ⟨by omega, rfl⟩

theorem decodeTopicMsg_of_encodeTopicMsg {topic payload : Bytes}
    (h : encodeTopicMsg topic payload = .ok (some msg)) :
    decodeTopicMsg msg = .ok (some (topic, payload)) := by
  obtain ⟨hsize, rfl⟩ := encodeTopicMsg_eq_some h
  have hsize : topic.length ≤ 2 ^ 26 := hsize
  have hread := read_put_append (BitVec.ofNat 64 topic.length) (topic ++ payload)
  rw [← List.append_assoc] at hread
  have hlen : (BitVec.ofNat 64 topic.length).toNat = topic.length := by
    rw [BitVec.toNat_ofNat]
    omega
  have hmax := read_le_maxLen (put (BitVec.ofNat 64 topic.length) ++ topic ++ payload)
  rw [hread] at hmax
  simp only [maxLen] at hmax
  rw [decodeTopicMsg_of_lt hread (put_length_pos _) (by omega), hlen, if_pos (by simp),
    ← List.length_append, List.take_left, List.drop_left, List.drop_left]

theorem exists_decoded_iff (msg : Bytes) :
    (∃ r, decodeTopicMsg msg = .ok r ∧
      ∀ topic payload, r = some (topic, payload) → Splits msg topic payload) ↔
    Addressable msg := by
  obtain ⟨len, k, hread⟩ : ∃ len k, read msg = (len, k) := ⟨_, _, rfl⟩
  rw [Addressable, hread]
  rcases le_or_gt k 0 with hk | hk
  · refine ⟨fun _ => .inl hk, fun _ => ⟨none, decodeTopicMsg_of_malformed hread hk, ?_⟩⟩
    intro topic payload h
    cases h
  lift k to ℕ using hk.le
  have hn : 0 < k := by omega
  rcases Nat.lt_or_ge (k + len.toNat) (2 ^ 63) with hlt | hge
  · refine ⟨fun _ => .inr (by dsimp only; omega), fun _ => ?_⟩
    have hdecode := decodeTopicMsg_of_lt hread hn hlt
    split at hdecode
    · next hle =>
      refine ⟨_, hdecode, fun topic payload h => ?_⟩
      cases h
      exact splits_of_le hread hle
    · refine ⟨none, hdecode, fun topic payload h => ?_⟩
      cases h
  · constructor
    · rintro ⟨r, hr, -⟩
      cases (decodeTopicMsg_of_ge hread hn hge).symm.trans hr
    · intro h
      dsimp only at h
      omega

/-- Decoding returns, with the parts of the message if any, exactly for addressable messages;
and it gives back what was encoded. -/
theorem decodeTopicMsg_total_iff (msg : Bytes) :
    ((∃ r, decodeTopicMsg msg = .ok r ∧
        ∀ topic payload, r = some (topic, payload) → Splits msg topic payload) ↔
      Addressable msg) ∧
    ∀ topic payload, encodeTopicMsg topic payload = .ok (some msg) →
      decodeTopicMsg msg = .ok (some (topic, payload)) :=
  ⟨exists_decoded_iff msg, fun _ _ => decodeTopicMsg_of_encodeTopicMsg⟩

theorem decodeTopicMsg_short_topic :
    (∃ r, decodeTopicMsg [1, 97, 98] = .ok r ∧
      ∀ topic payload, r = some (topic, payload) → Splits [1, 97, 98] topic payload) ∧
    decodeTopicMsg [1, 97, 98] = .ok (some ([97], [98])) := by
  refine ⟨(decodeTopicMsg_total_iff _).1.mpr (by decide +kernel), ?_⟩
  refine (decodeTopicMsg_total_iff _).2 [97] [98] ?_
  rw [encodeTopicMsg, put]
  rfl

/-- Ten bytes that announce a topic of 2⁶⁴ - 1 bytes. -/
theorem decodeTopicMsg_panics :
    decodeTopicMsg (List.replicate 9 0xff ++ [1]) = .error .sliceBoundsOutOfRange := by
  decide +kernel

/-! ## Broadcasts -/

/-- Whichever node the message comes to calls its subscribers of the topic with the payload. -/
def Reaches (H : Type) (m : Bytes × Bytes) (msg : Bytes) : Prop :=
  ∀ r : Delegate H, r.notifyMsg msg = .ok ((r.subs.getD m.1 []).map fun h => (h, m.2))

/-- A node queues one message for each broadcast that is not too large, in order, and none of them
makes a receiver panic. -/
theorem broadcasts_reach_subscribers {H : Type} (sent : List (Bytes × Bytes)) (d d' : Delegate H)
    (h : sent.foldlM (fun d m => d.broadcast m.1 m.2) d = .ok d') :
    ∃ msgs, d'.queue = d.queue ++ msgs ∧
      (sent.filter fun m => encodeTopicMsg m.1 m.2 ≠ .ok none).Forall₂ (Reaches H) msgs := by
  induction sent generalizing d with
  | nil =>
    cases h
    exact ⟨[], by simp, .nil⟩
  | cons m sent ih =>
    rw [List.foldlM_cons] at h
    cases hm : encodeTopicMsg m.1 m.2 with
    | error e =>
      simp only [Delegate.broadcast, hm] at h
      cases h
    | ok o =>
      cases o with
      | none =>
        simp only [Delegate.broadcast, hm] at h
        simpa [hm] using ih d h
      | some msg =>
        simp only [Delegate.broadcast, hm] at h
        obtain ⟨msgs, hq, hall⟩ := ih { d with queue := d.queue ++ [msg] } h
        refine ⟨msg :: msgs, by simpa using hq, ?_⟩
        simp only [List.filter_cons, hm]
        refine .cons (fun r => ?_) hall
        simp only [Delegate.notifyMsg, decodeTopicMsg_of_encodeTopicMsg hm]
        rfl

theorem handlers_of_subscribes {H : Type} (subs : List (Bytes × H)) (d : Delegate H) (topic : Bytes) :
    (subs.foldl (fun d s => d.subscribe s.1 s.2) d).subs.getD topic [] =
      d.subs.getD topic [] ++ (subs.filter (·.1 = topic)).map (·.2) := by
  induction subs generalizing d with
  | nil => simp
  | cons s subs ih =>
    rw [List.foldl_cons, ih]
    by_cases hs : s.1 = topic
    · simp [Delegate.subscribe, hs]
    · simp [Delegate.subscribe, hs, GoMap.getD, GoMap.get_set, Ne.symm hs]

/-- The topics `a`, `b` and `a` again; a receiver has two handlers for `a` and one for `b`. -/
theorem broadcasts_reach_subscribers_three :
    let sent : List (Bytes × Bytes) := [([97], [7]), ([98], [8]), ([97], [9])]
    let receiver := [([97], 0), ([98], 1), ([97], 2)].foldl (fun d s => d.subscribe s.1 s.2)
      (⟨[], ∅⟩ : Delegate ℕ)
    ∃ d', sent.foldlM (fun d m => d.broadcast m.1 m.2) (⟨[], ∅⟩ : Delegate ℕ) = .ok d' ∧
      d'.queue.map receiver.notifyMsg =
        [.ok [(0, [7]), (2, [7])], .ok [(1, [8])], .ok [(0, [9]), (2, [9])]] := by
  have hmsg (a b : UInt8) : encodeTopicMsg [a] [b] = .ok (some [1, a, b]) := by
    rw [encodeTopicMsg, put]
    rfl
  have hrun : [([97], [7]), ([98], [8]), ([97], [9])].foldlM (fun d m => d.broadcast m.1 m.2)
      (⟨[], ∅⟩ : Delegate ℕ) = .ok ⟨[[1, 97, 7], [1, 98, 8], [1, 97, 9]], ∅⟩ := by
    simp only [List.foldlM_cons, Delegate.broadcast, hmsg]
    rfl
  obtain ⟨msgs, hqueue, hall⟩ := broadcasts_reach_subscribers _ _ _ hrun
  refine ⟨_, hrun, ?_⟩
  obtain rfl : _ = msgs := hqueue
  obtain ⟨hfirst, hsecond, hthird⟩ : Reaches ℕ ([97], [7]) [1, 97, 7] ∧
      Reaches ℕ ([98], [8]) [1, 98, 8] ∧ Reaches ℕ ([97], [9]) [1, 97, 9] := by
    simpa [hmsg] using hall
  simp only [List.map_cons, List.map_nil, hfirst _, hsecond _, hthird _,
    handlers_of_subscribes]
  rfl

end CyodaGo.Gossip
