/-
# Skytime.Sdk.PeerList — the list of peers on its way from the PHP client to the server.

The client joins the ids with commas, the server splits at the commas and trims each piece. A join
of ids without commas can be undone, but for one list: the empty array becomes the empty text, and
the empty text is one piece. The id that the server then has is the empty one, and connections
without a `peer_id` are registered under it.
-/
import Mathlib.Data.List.TakeWhile
import Skytime.Process.Text
import Skytime.Sdk.Client

namespace Skytime

open Process

/-! ## Texts as bytes -/

theorem bytesOf_append (s t : String) : bytesOf (s ++ t) = bytesOf s ++ bytesOf t := by
  simp [bytesOf, byteArray_toList_append]

/-- The ids are joined as texts or as bytes. -/
theorem implode_bytesOf (ids : List String) :
    implode (ids.map bytesOf) = bytesOf (",".intercalate ids) := by
  induction ids with
  | nil => simp [implode, bytesOf]
  | cons id ids ih =>
      cases ids with
      | nil => simp [implode]
      | cons id' ids =>
          rw [String.intercalate_cons_cons, bytesOf_append, bytesOf_append, ← ih]
          simp [implode, List.intercalate]

/-! ## What the server rebuilds -/

/-- An id without a comma and without white space at either end. -/
structure PlainId (id : String) : Prop where
  noComma : ',' ∉ id.toList
  noSpaceHead : ∀ c ∈ id.toList.head?, isSpace c = false
  noSpaceLast : ∀ c ∈ id.toList.getLast?, isSpace c = false

theorem plainId_of_char {id : String} {c : Char} (h : id.toList = [c]) (hcomma : c ≠ ',')
    (hspace : isSpace c = false) : PlainId id := by
  have heq : ∀ x ∈ some c, isSpace x = false := by
    rintro x ⟨⟩
    exact hspace
  refine ⟨?_, ?_, ?_⟩ <;> rw [h]
  · exact fun hmem => hcomma (List.mem_singleton.mp hmem).symm
  · exact heq
  · exact heq

theorem trimSpace_of_plainId {id : String} (h : PlainId id) : trimSpace id = id := by
  have hleft : id.toList.dropWhile isSpace = id.toList := by
    apply List.dropWhile_eq_self_iff.mpr
    intro hpos
    rw [h.noSpaceHead _ (List.head?_eq_getElem? .. ▸ List.getElem?_eq_getElem hpos)]
    simp
  have hright : id.toList.reverse.dropWhile isSpace = id.toList.reverse := by
    apply List.dropWhile_eq_self_iff.mpr
    intro hpos
    have hlast : id.toList.reverse[0] ∈ id.toList.getLast? := by
      rw [← List.head?_reverse, List.head?_eq_getElem?]
      exact List.getElem?_eq_getElem hpos
    rw [h.noSpaceLast _ hlast]
    simp
  rw [trimSpace, hleft, hright, List.reverse_reverse, String.ofList_toList]

/-- Splitting and trimming gives the ids back, if there are any. -/
theorem splitPeerIds_intercalate {ids : List String} (hids : ∀ id ∈ ids, PlainId id)
    (hne : ids ≠ []) : splitPeerIds (",".intercalate ids) = ids := by
  have hsplit : (",".intercalate ids).splitOn "," = ids :=
    splitOn_intercalate (c := ',') hne fun id hid => (hids id hid).noComma
  rw [splitPeerIds, hsplit]
  calc ids.map trimSpace
    _ = ids.map id := List.map_congr_left fun id hid => trimSpace_of_plainId (hids id hid)
    _ = ids := List.map_id ids

/-- The empty text is one piece. -/
theorem splitPeerIds_empty : splitPeerIds "" = [""] := by
  have hsplit : ("" : String).splitOn "," = [""] := splitOn_char "" ','
  rw [splitPeerIds, hsplit]
  decide

/-- The server decodes what the client has encoded. -/
def JsonInverse (php : Php) (server : HttpEnv) (peers msg : String) : Prop :=
  ∃ text, php.jsonEncode (bytesOf peers) (bytesOf msg) = some text ∧
    server.unmarshalPeers text = (⟨peers, msg⟩, true)

/-- What the server makes of a request of the client. -/
theorem peersJob_post {php : Php} {server : HttpEnv} {skt : SkytimeSdk} {ids : List String}
    {msg : String} {timeout : ℤ} {p : HttpPost}
    (hjson : JsonInverse php server (",".intercalate ids) msg)
    (hpost : (SdkCall.broadcastPeers (bytesOf msg) (some (ids.map bytesOf)) timeout).post skt php =
      some p) :
    peersJob server p.postfields =
      .broadcastPeers (splitPeerIds (",".intercalate ids)) (bytesOf msg) := by
  obtain ⟨text, hencode, hdecode⟩ := hjson
  have hfields : p.postfields = text := by
    have hp : p.postfields = SkytimeSdk.peersFields php (ids.map bytesOf) (bytesOf msg) := by
      cases hmsg : phpEmpty (bytesOf msg)
      · simp only [SdkCall.post, hmsg, Bool.false_eq_true, if_false, Option.map_some,
          Option.some.injEq] at hpost
        rw [← hpost]
      · simp [SdkCall.post, hmsg] at hpost
    rw [hp, SkytimeSdk.peersFields, implode_bytesOf, hencode, Option.getD_some]
  rw [peersJob, hfields, hdecode]
  rfl

/-- **The server has the ids of the client, in order, exactly when there are any.** -/
theorem peerIds_eq_iff {php : Php} {server : HttpEnv} {skt : SkytimeSdk} {ids : List String}
    {msg : String} {timeout : ℤ} {p : HttpPost} (hids : ∀ id ∈ ids, PlainId id)
    (hjson : JsonInverse php server (",".intercalate ids) msg)
    (hpost : (SdkCall.broadcastPeers (bytesOf msg) (some (ids.map bytesOf)) timeout).post skt php =
      some p) :
    peersJob server p.postfields = .broadcastPeers ids (bytesOf msg) ↔ ids ≠ [] := by
  rw [peersJob_post hjson hpost, Job.broadcastPeers.injEq, and_iff_left rfl]
  constructor
  · rintro h rfl
    rw [String.intercalate_nil, splitPeerIds_empty] at h
    exact absurd h (by simp)
  · exact splitPeerIds_intercalate hids

/-! ## One list that comes back and one that does not -/

/-- The bytes that JSON writes as they are, among the printable ones. -/
def plainByte (b : UInt8) : Bool := 0x20 ≤ b ∧ b < 0x7f ∧ b ∉ [0x22, 0x2f, 0x5c]

/-- `json_encode` of texts that need no escapes. -/
def encodePlain (peers msg : PhpString) : Option PhpString :=
  if (peers ++ msg).all plainByte then
    some (bytesOf "\x7b\"peers\":\"" ++ peers ++ bytesOf "\",\"br_msg\":\"" ++ msg ++
      bytesOf "\"\x7d")
  else none

/-- The text before the next quotation mark. -/
def untilQuote (text : List UInt8) : String :=
  String.ofList ((text.takeWhile (· ≠ 0x22)).map fun b => Char.ofNat b.toNat)

/-- `json.Unmarshal` of what `encodePlain` writes. -/
def decodePlain (text : List UInt8) : PeersBrMsg × Bool :=
  let peers := untilQuote (text.drop 10)
  (⟨peers, untilQuote (text.drop (10 + peers.length + 12))⟩, true)

def plainPhp : Php := { phpFive with jsonEncode := encodePlain }

def plainServer : HttpEnv := { openEnv with unmarshalPeers := decodePlain }

theorem jsonInverse_plain {peers msg : String}
    (h : (encodePlain (bytesOf peers) (bytesOf msg)).map decodePlain =
      some (⟨peers, msg⟩, true)) : JsonInverse plainPhp plainServer peers msg :=
  Option.map_eq_some_iff.mp h

/-- The request of `broadcast_peers("hi", $ids, 3)`. -/
def peersPost (ids : List String) : HttpPost :=
  ⟨localSdk.apiUri "/api/broadcast_peers",
    SkytimeSdk.peersFields plainPhp (ids.map bytesOf) (bytesOf "hi"), 3⟩

theorem post_peersPost (ids : List String) :
    (SdkCall.broadcastPeers (bytesOf "hi") (some (ids.map bytesOf)) 3).post localSdk plainPhp =
      some (peersPost ids) := by
  have hmsg : phpEmpty (bytesOf "hi") = false := by decide +kernel
  simp [SdkCall.post, hmsg, peersPost]

/-- Two peers stay two peers. -/
theorem twoPeers_rebuilt : peersJob plainServer (peersPost ["a", "b"]).postfields =
    .broadcastPeers ["a", "b"] (bytesOf "hi") := by
  have hids : ∀ id ∈ ["a", "b"], PlainId id := by
    intro id hid
    rcases List.mem_pair.mp hid with rfl | rfl <;>
      exact plainId_of_char rfl (by decide) (by decide)
  have hjson : JsonInverse plainPhp plainServer (",".intercalate ["a", "b"]) "hi" :=
    jsonInverse_plain (by decide +kernel)
  exact (peerIds_eq_iff hids hjson (post_peersPost _)).mpr (by simp)

/-- The empty array reaches the server as the list of the empty id. -/
theorem emptyArray_names_nobody : JsonInverse plainPhp plainServer (",".intercalate []) "hi" ∧
    (SdkCall.broadcastPeers (bytesOf "hi") (some []) 3).post localSdk plainPhp =
      some (peersPost []) ∧
    peersJob plainServer (peersPost []).postfields = .broadcastPeers [""] (bytesOf "hi") ∧
    peersJob plainServer (peersPost []).postfields ≠ .broadcastPeers [] (bytesOf "hi") := by
  have hjson : JsonInverse plainPhp plainServer (",".intercalate []) "hi" :=
    jsonInverse_plain (by decide +kernel)
  have hjob := peersJob_post hjson (post_peersPost [])
  rw [String.intercalate_nil, splitPeerIds_empty] at hjob
  refine ⟨hjson, post_peersPost [], hjob, ?_⟩
  rw [hjob]
  simp

end Skytime
