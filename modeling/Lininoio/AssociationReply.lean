import Lininoio.ChannelTable

/-! The association reply of Documentation/lininoio.txt against what `ether_send_areply`
hands to sendmsg. -/

namespace Lininoio

open StateFault CircularLinks

/-- The association data of the channels of a reply, with their ids. `fuel` bounds their number. -/
def decodeChannels : Nat → List UInt8 → Option (List (UInt8 × List UInt8))
  | _, [] => some []
  | 0, _ => none
  | _, [_] => none
  | fuel + 1, low :: high :: rest =>
    let field := low.toNat + 256 * high.toNat
    let dlen := field % 2 ^ 12
    if rest.length < dlen then none
    else (decodeChannels fuel (rest.drop dlen)).map (fun chans =>
      (UInt8.ofNat (field / 2 ^ 12), rest.take dlen) :: chans)

def decodeReply : List UInt8 → Option (UInt8 × List (UInt8 × List UInt8))
  | 2 :: status :: rest => (decodeChannels rest.length rest).map (fun chans => (status, chans))
  | _ => none

/-- A channel id of 4 bits and data with a length of 12 bits. -/
structure ReplyChannel where
  id : UInt8
  data : List UInt8
  id_lt : id.toNat < 2 ^ 4
  short : data.length < 2 ^ 12

def ReplyChannel.bytes (c : ReplyChannel) : List UInt8 :=
  u16Bytes false (lininoioEncodeCdlen (UInt16.ofNat c.data.length) c.id) ++ c.data

def documentedReply (status : UInt8) (chans : List ReplyChannel) : List UInt8 :=
  2 :: status :: chans.flatMap ReplyChannel.bytes

theorem toNat_replyField (c : ReplyChannel) :
    (lininoioEncodeCdlen (UInt16.ofNat c.data.length) c.id).toNat = 2 ^ 12 * c.id.toNat +
      c.data.length := by
  have hid := c.id_lt
  have hlen := c.short
  have hdlen : (UInt16.ofNat c.data.length).toNat = c.data.length := by
    rw [UInt16.toNat_ofNat']
    omega
  rw [toNat_encodeCdlen, hdlen, Nat.mod_eq_of_lt hid, Nat.mod_eq_of_lt hlen]

theorem decodeChannels_flatMap (chans : List ReplyChannel) (fuel : Nat) (h : chans.length ≤ fuel) :
    decodeChannels fuel (chans.flatMap ReplyChannel.bytes) =
      some (chans.map (fun c => (c.id, c.data))) := by
  induction chans generalizing fuel with
  | nil => cases fuel <;> rfl
  | cons c chans ih =>
    obtain ⟨fuel, rfl⟩ : ∃ m, fuel = m + 1 := by
      cases fuel with
      | zero => simp at h
      | succ m => exact ⟨m, rfl⟩
    have hid := c.id_lt
    have hlen := c.short
    have hf := toNat_replyField c
    obtain ⟨v, hv⟩ : ∃ v, v = (lininoioEncodeCdlen (UInt16.ofNat c.data.length) c.id).toNat := ⟨_, rfl⟩
    rw [← hv] at hf
    have hlow : (UInt8.ofNat (v % 256)).toNat = v % 256 := by
      rw [UInt8.toNat_ofNat']
      omega
    have hhigh : (UInt8.ofNat (v / 256)).toNat = v / 256 := by
      rw [UInt8.toNat_ofNat']
      omega
    have hfield : v % 256 + 256 * (v / 256) = v := Nat.mod_add_div v 256
    have hdlen : v % 2 ^ 12 = c.data.length := by omega
    have hdiv : v / 2 ^ 12 = c.id.toNat := by omega
    have hrest := ih fuel (by simpa using h)
    simp only [List.flatMap_cons, ReplyChannel.bytes, u16Bytes, Bool.false_eq_true, if_false, ← hv,
      List.cons_append, List.nil_append, decodeChannels, hlow, hhigh, hfield, hdlen, hdiv]
    rw [if_neg (by simp)]
    have hdrop : (c.data ++ chans.flatMap ReplyChannel.bytes).drop c.data.length =
        chans.flatMap ReplyChannel.bytes := List.drop_left
    have htake : (c.data ++ chans.flatMap ReplyChannel.bytes).take c.data.length = c.data :=
      List.take_left
    rw [hdrop, htake, hrest, UInt8.ofNat_toNat]
    rfl

theorem decodeReply_documentedReply (status : UInt8) (chans : List ReplyChannel) :
    decodeReply (documentedReply status chans) =
      some (status, chans.map (fun c => (c.id, c.data))) := by
  have hlen : chans.length ≤ (chans.flatMap ReplyChannel.bytes).length := by
    induction chans with
    | nil => exact Nat.zero_le _
    | cons c chans ih =>
      simp only [List.flatMap_cons, List.length_append, List.length_cons, ReplyChannel.bytes,
        length_u16Bytes]
      omega
  show (decodeChannels _ _).map _ = _
  rw [decodeChannels_flatMap chans _ hlen]
  rfl

/-- What is handed to sendmsg is a vector with an entry for the header and for each
channel, all of them written, and reads as the reply. -/
def ReplySent (status : UInt8) (chans : List ReplyChannel) (E : List Effect) : Prop :=
  ∀ dest iov r, .sys (.sendmsg dest iov) r ∈ E → iov.length = 1 + chans.length ∧
    ∃ vecs : List (List UInt8), iov = vecs.map some ∧
      decodeReply vecs.flatten = some (status, chans.map (fun c => (c.id, c.data)))

section

variable {L σ : Type} (env : Env σ) {n : Slot} {s : Daemon L σ} {chans : List ReplyChannel}

theorem fillVecs_overruns {c : ChanPtr} {left i : Nat} {vecs : List (Option (List UInt8))}
    {Q : List (Option (List UInt8)) → Daemon L σ → Prop} :
    ¬ wp (fillVecs env (some c) left i vecs) Q (fun _ _ => False) s := by
  have hread : ∀ {α : Type} {Q : α → Daemon L σ → Prop} {f : Channel → EtherM L σ α},
      (∀ ch, ¬ wp (f ch) Q (fun _ _ => False) s) →
        ¬ wp (readChannel c >>= f) Q (fun _ _ => False) s := by
    intro α Q f hf h
    rw [wp_bind] at h
    cases hc : s.chan c with
    | none => simp [readChannel, hc] at h
    | some ch => exact hf ch ((wp_readChannel _ s hc _).mp h)
  induction left using Nat.twoStepInduction generalizing i vecs with
  | zero => exact id
  | one => exact hread fun ch => id
  | more left ih _ => exact hread fun ch => ih

theorem replySent_header (status : UInt8) (dest : SockaddrLl) (mem r : Int) : ReplySent status []
    [.sys (.malloc .iovecs) mem,
      .sys (.sendmsg dest [some [(htole32 env.bigEndian 2).toUInt8, status]]) r] ↔
      env.bigEndian = false := by
  constructor
  · intro h
    obtain ⟨-, vecs, hvecs, hdecode⟩ :=
      h dest [some [(htole32 env.bigEndian 2).toUInt8, status]] r (by simp)
    have hv : vecs = [[(htole32 env.bigEndian 2).toUInt8, status]] := by
      simpa [List.map_eq_cons_iff] using hvecs.symm
    subst hv
    cases hbe : env.bigEndian with
    | false => rfl
    | true =>
      rw [hbe] at hdecode
      exact absurd hdecode (by simp [htole32, decodeReply])
  · intro hbe dest' iov r' hm
    simp only [hbe, List.mem_cons, Effect.sys.injEq, reduceCtorEq, SysCall.sendmsg.injEq, false_and,
      List.not_mem_nil, or_false, false_or] at hm
    obtain ⟨⟨-, rfl⟩, -⟩ := hm
    exact ⟨rfl, [[(htole32 false 2).toUInt8, status]], rfl, rfl⟩

/-- Only a host without memory, or with little endian byte order and a node without
channels, gets the documented reply: whether the channel table holds the channels or,
as it is left by an association, none of them. -/
theorem reply_sent_iff (hk : (s.node n).nchannels = chans.length)
    (h0 : chans = [] → (s.node n).channels 0 = none) (stat : Int) :
    wp (etherSendAreply env n stat)
      (fun _ t => ReplySent (UInt8.ofNat (stat % 256).toNat) chans (s.effectsSince t))
      (fun _ _ => False) s ↔
    (env.sys (.malloc .iovecs) s.world).1 < 0 ∨ (chans = [] ∧ env.bigEndian = false) := by
  simp only [etherSendAreply, wp_bind, wp_sys]
  generalize env.sys (.malloc .iovecs) s.world = mem
  by_cases hmem : mem.1 < 0
  · simp only [hmem, if_true, wp_pure, true_or, iff_true]
    rw [effectsSince_eq (E := [.sys (.malloc .iovecs) mem.1]) rfl]
    intro dest iov r hm
    simp at hm
  simp only [hmem, if_false, wp_bind, wp_readNode, false_or]
  cases htable : (s.node n).channels 0 with
  | some c =>
    have hne : chans ≠ [] := fun hnil => by simp [h0 hnil] at htable
    simp only [hne, false_and, iff_false]
    exact fillVecs_overruns env
  | none =>
    simp only [fillVecs, wp_pure, wp_sys, hk]
    rw [effectsSince_eq (E := [.sys (.malloc .iovecs) mem.1, _]) (by simp; rfl)]
    cases chans with
    | nil =>
      rw [show List.replicate ([] : List ReplyChannel).length (none : Option (List UInt8)) =
        [] from rfl]
      simpa using replySent_header env (UInt8.ofNat (stat % 256).toNat) (s.node n).addr mem.1 _
    | cons c chans =>
      simp only [reduceCtorEq, false_and, iff_false]
      intro h
      obtain ⟨-, vecs, hvecs, -⟩ := h _ _ _ (List.mem_cons_of_mem _ (List.mem_singleton.mpr rfl))
      have hnone : (none : Option (List UInt8)) ∈ vecs.map some := by
        rw [← hvecs]
        simp
      simp at hnone

end

theorem reply_sent_no_channels : wp (etherSendAreply bareHost 0 0)
    (fun _ t => ReplySent 0 [] (boardDaemon.effectsSince t)) (fun _ _ => False) boardDaemon :=
  (reply_sent_iff bareHost rfl (fun _ => rfl) 0).mpr (.inr ⟨rfl, rfl⟩)

/-- The reply to a request sent twice, of a board with one channel. -/
theorem boardRequest_reply_not_sent : ∃ t : Daemon (Links Cell) Unit,
    etherRxArequest bareHost boardAddr (atPointer (requestFrame 1 [1, 0])) 20 boardDaemon = .ok () t ∧
    ¬ wp (etherSendAreply bareHost 0 0)
      (fun _ u => ReplySent 0 [⟨0, [], by decide, by decide⟩] (t.effectsSince u))
      (fun _ _ => False) t := by
  have hreturns : returnsIn (etherRxArequest bareHost boardAddr (atPointer (requestFrame 1 [1, 0])) 20)
      (fun t => (t.node 0).nchannels = 1 && ((t.node 0).channels 0).isNone) boardDaemon = true := by
    decide +kernel
  obtain ⟨_, t, hrun, ht⟩ := exists_of_returnsIn hreturns
  simp only [Bool.and_eq_true, decide_eq_true_eq] at ht
  refine ⟨t, hrun, fun hwp => ?_⟩
  have hcases := (reply_sent_iff bareHost (by simpa using ht.1) (by simp) 0).mp hwp
  simp [bareHost] at hcases

end Lininoio
