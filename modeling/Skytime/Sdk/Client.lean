/-
# Skytime.Sdk.Client — the PHP class `skytime` and what it takes for a success.

`broadcast_all` and `broadcast_peers` differ in what they post. What comes back goes through
`json_decode` and one comparison, `$data["ret"] != 0`, in the loose sense of PHP: what cannot be
decoded is `null`, an offset that is missing is `null`, and `null` equals `0`. The server's refusal
of an address is an empty body, so this is not a corner of the protocol.

The grammar of JSON is a parameter, and so are the two places where the versions of PHP differ.
-/
import Mathlib.Data.Rat.Lemmas
import Skytime.Api.Requests

namespace Skytime

/-! ## PHP -/

/-- A string of PHP. -/
abbrev PhpString := List UInt8

/-- The value of a JSON text; an object keeps its members in the order of the text. -/
inductive Json where
  | null
  | bool (b : Bool)
  | num (q : ℚ)
  | str (s : PhpString)
  | arr (items : List Json)
  | obj (members : List (PhpString × Json))

namespace Json

mutual

/-- How deep arrays and objects are nested. -/
def depth : Json → ℕ
  | .arr items => itemsDepth items + 1
  | .obj members => membersDepth members + 1
  | _ => 0

def itemsDepth : List Json → ℕ
  | [] => 0
  | v :: items => max v.depth (itemsDepth items)

def membersDepth : List (PhpString × Json) → ℕ
  | [] => 0
  | (_, v) :: members => max v.depth (membersDepth members)

end

/-- The key `"ret"`. -/
def retKey : PhpString := bytesOf "ret"

/-- The member `ret` of the members of an object: of several, the last one. -/
def retMember (members : List (PhpString × Json)) : Option Json := members.reverse.lookup retKey

end Json

/-- What the client uses of PHP. -/
structure Php where
  /-- the value of a JSON text, by the grammar of JSON -/
  parse : List UInt8 → Option Json
  parse_nil : parse [] = none
  /-- `json_encode` of the array that `broadcast_peers` builds; `none` is `false` -/
  jsonEncode : PhpString → PhpString → Option PhpString
  /-- `$s == 0`, which PHP 8 has changed -/
  looseEqZero : PhpString → Bool
  /-- `$s["ret"]` of a string, `none` if it throws: the first byte up to PHP 7, an error in PHP 8 -/
  stringOffset : PhpString → Option PhpString

/-- What `curl_exec` returns: `false`, or the body of the response. -/
inductive CurlResult where
  | failed
  | body (text : List UInt8)
  deriving DecidableEq, Repr

/-- `false` as a string is empty. -/
def CurlResult.jsonData : CurlResult → List UInt8
  | .failed => []
  | .body text => text

/-- The nesting limit of `json_decode`. -/
def jsonDepth : ℕ := 512

/-- `empty($msg)`: also the text `"0"` is empty. -/
def phpEmpty (msg : PhpString) : Bool := msg == [] || msg == [0x30]

/-- `implode(",", $peers)`. -/
def implode (peers : List PhpString) : PhpString := (bytesOf ",").intercalate peers

/-- A number as small as this is read as the float `0`. -/
def roundsToZero (q : ℚ) : Bool := -1 ≤ q * 2 ^ 1075 ∧ q * 2 ^ 1075 ≤ 1

namespace Php

variable (php : Php)

/-- `json_decode($json_data, true)`. -/
def jsonDecode (text : List UInt8) : Json :=
  match php.parse text with
  | none => .null
  | some v => if v.depth ≤ jsonDepth then v else .null

/-- `$data["ret"]`; `none` if it throws. -/
def offsetRet : Json → Option Json
  | .str s => (php.stringOffset s).map .str
  | .obj members => some ((Json.retMember members).getD .null)
  | _ => some .null

/-- `$v != 0`. An array is greater than any number. -/
def notEqZero : Json → Bool
  | .null => false
  | .bool b => b
  | .num q => ¬ roundsToZero q
  | .str s => ¬ php.looseEqZero s
  | .arr _ | .obj _ => true

/-- The end of both requests; `none` if it throws. -/
def checkRet (res : CurlResult) : Option Bool :=
  (php.offsetRet (php.jsonDecode res.jsonData)).map fun ret =>
    if php.notEqZero ret then false else true

end Php

/-! ## The class -/

/-- What `init` sets. The debugging output is left out. -/
structure SkytimeSdk where
  listenAddr : String
  listenPort : String
  deriving DecidableEq, Repr

/-- The options of the `curl` handle. -/
structure HttpPost where
  url : String
  postfields : List UInt8
  timeout : ℤ
  deriving DecidableEq, Repr

namespace SkytimeSdk

variable (skt : SkytimeSdk) (php : Php) (curlExec : HttpPost → CurlResult)

def apiUri (path : String) : String := "http://" ++ skt.listenAddr ++ ":" ++ skt.listenPort ++ path

def broadcastAll (msg : PhpString) (timeout : ℤ) : Option Bool :=
  if phpEmpty msg then some false
  else php.checkRet (curlExec ⟨skt.apiUri "/api/broadcast_all", msg, timeout⟩)

/-- `POSTFIELDS` of `broadcast_peers`. -/
def peersFields (peers : List PhpString) (msg : PhpString) : List UInt8 :=
  (php.jsonEncode (implode peers) msg).getD []

/-- `peers` is `none` for a value that is no array. -/
def broadcastPeers (msg : PhpString) (peers : Option (List PhpString)) (timeout : ℤ) :
    Option Bool :=
  if phpEmpty msg then some false
  else
    match peers with
    | none => some false
    | some peers =>
      php.checkRet
        (curlExec ⟨skt.apiUri "/api/broadcast_peers", peersFields php peers msg, timeout⟩)

end SkytimeSdk

/-- A call of one of the two functions. -/
inductive SdkCall where
  | broadcastAll (msg : PhpString) (timeout : ℤ)
  | broadcastPeers (msg : PhpString) (peers : Option (List PhpString)) (timeout : ℤ)
  deriving DecidableEq, Repr

namespace SdkCall

variable (skt : SkytimeSdk) (php : Php)

/-- What the call returns, if it does not throw. -/
def run (curlExec : HttpPost → CurlResult) : SdkCall → Option Bool
  | .broadcastAll msg timeout => skt.broadcastAll php curlExec msg timeout
  | .broadcastPeers msg peers timeout => skt.broadcastPeers php curlExec msg peers timeout

/-- The request of the call; without a message or an array of peers it makes none. -/
def post : SdkCall → Option HttpPost
  | .broadcastAll msg timeout =>
      if phpEmpty msg then none else some ⟨skt.apiUri "/api/broadcast_all", msg, timeout⟩
  | .broadcastPeers msg peers timeout =>
      if phpEmpty msg then none
      else peers.map fun peers =>
        ⟨skt.apiUri "/api/broadcast_peers", SkytimeSdk.peersFields php peers msg, timeout⟩

/-- A call without a request returns `false`, any other what the response makes of it. -/
theorem run_eq (curlExec : HttpPost → CurlResult) (call : SdkCall) :
    call.run skt php curlExec =
      match call.post skt php with
      | none => some false
      | some p => php.checkRet (curlExec p) := by
  cases call with
  | broadcastAll msg timeout =>
      cases hmsg : phpEmpty msg <;> simp [run, post, SkytimeSdk.broadcastAll, hmsg]
  | broadcastPeers msg peers timeout =>
      cases hmsg : phpEmpty msg
      · cases peers <;> simp [run, post, SkytimeSdk.broadcastPeers, hmsg]
      · simp [run, post, SkytimeSdk.broadcastPeers, hmsg]

end SdkCall

/-! ## Which responses are taken for a success -/

/-- The response is a JSON object with a member `ret` that is `0`. -/
def Php.ReportsSuccess (php : Php) (res : CurlResult) : Prop :=
  ∃ text members, res = .body text ∧ php.parse text = some (.obj members) ∧
    Json.retMember members = some (.num 0)

/-- The values of `ret` other than `0` that equal `0` in PHP: a member that is missing or `null`,
`false`, a number other than `0` that is read as the float `0`, a string that PHP compares so. -/
def Php.LooseZero (php : Php) : Option Json → Prop
  | none | some .null | some (.bool false) => True
  | some (.num q) => q ≠ 0 ∧ roundsToZero q = true
  | some (.str s) => php.looseEqZero s = true
  | _ => False

/-- A string whose offset `"ret"` is taken for `0`; with PHP 8 there is none. -/
def Php.LooseString (php : Php) (s : PhpString) : Prop :=
  ∃ c, php.stringOffset s = some c ∧ php.looseEqZero c = true

/-- The responses that are no reported success and are taken for one: a failed transport, a body
that is not JSON, `null`, a boolean, a number, a list, some strings, an object whose `ret` is
loosely `0`, and an object that is nested too deeply, whatever else its `ret` is. -/
def Php.Mistaken (php : Php) : CurlResult → Prop
  | .failed => True
  | .body text =>
    match php.parse text with
    | none | some .null | some (.bool _) | some (.num _) | some (.arr _) => True
    | some (.str s) => php.LooseString s
    | some (.obj members) =>
      if (Json.obj members).depth ≤ jsonDepth then php.LooseZero (Json.retMember members)
      else Json.retMember members ≠ some (.num 0)

namespace Php

variable (php : Php)

theorem roundsToZero_zero : roundsToZero 0 = true := by
  have hneg : (-1 : ℚ) ≤ 0 := by decide
  simp [roundsToZero, hneg]

/-- What the comparison makes of `ret`: it is `0`, loosely `0`, or neither. -/
theorem notEqZero_eq_false_iff (ret : Option Json) :
    php.notEqZero (ret.getD .null) = false ↔ ret = some (.num 0) ∨ php.LooseZero ret := by
  cases ret with
  | none => simp [notEqZero, LooseZero]
  | some v =>
      cases v with
      | null => simp [notEqZero, LooseZero]
      | bool b => cases b <;> simp [notEqZero, LooseZero]
      | num q =>
          by_cases hq : q = 0
          · subst hq
            simp [notEqZero, roundsToZero_zero]
          · simp [notEqZero, LooseZero, hq]
      | str s => simp [notEqZero, LooseZero]
      | arr items => simp [notEqZero, LooseZero]
      | obj members => simp [notEqZero, LooseZero]

theorem jsonDecode_of_parse_eq_none {text : List UInt8} (h : php.parse text = none) :
    php.jsonDecode text = .null := by
  simp [jsonDecode, h]

theorem jsonDecode_of_depth {text : List UInt8} {v : Json} (h : php.parse text = some v)
    (hv : v.depth ≤ jsonDepth) : php.jsonDecode text = v := by
  simp [jsonDecode, h, hv]

theorem jsonDecode_of_too_deep {text : List UInt8} {v : Json} (h : php.parse text = some v)
    (hv : ¬ v.depth ≤ jsonDepth) : php.jsonDecode text = .null := by
  simp [jsonDecode, h, hv]

/-- What has no offsets has the offset `null`, which is a success. -/
theorem checkRet_of_offsetRet_eq_null {res : CurlResult}
    (h : php.offsetRet (php.jsonDecode res.jsonData) = some .null) :
    php.checkRet res = some true := by
  simp [checkRet, h, notEqZero]

/-- An object that can be decoded is judged by its member. -/
theorem checkRet_obj {text : List UInt8} {members : List (PhpString × Json)}
    (h : php.parse text = some (.obj members)) (hdepth : (Json.obj members).depth ≤ jsonDepth) :
    php.checkRet (.body text) = some true ↔
      Json.retMember members = some (.num 0) ∨ php.LooseZero (Json.retMember members) := by
  have hdata : php.jsonDecode (CurlResult.body text).jsonData = .obj members :=
    php.jsonDecode_of_depth h hdepth
  rw [← php.notEqZero_eq_false_iff]
  simp [checkRet, hdata, offsetRet]

theorem checkRet_str {text : List UInt8} {s : PhpString} (h : php.parse text = some (.str s)) :
    php.checkRet (.body text) = some true ↔ php.LooseString s := by
  have hdata : php.jsonDecode (CurlResult.body text).jsonData = .str s :=
    php.jsonDecode_of_depth h (by simp [Json.depth])
  cases hoff : php.stringOffset s <;>
    simp [checkRet, hdata, offsetRet, hoff, notEqZero, LooseString]

/-- What a body reports when its members are known. -/
theorem reportsSuccess_body {text : List UInt8} {v : Json} (h : php.parse text = some v) :
    php.ReportsSuccess (.body text) ↔
      ∃ members, v = .obj members ∧ Json.retMember members = some (.num 0) := by
  simp [ReportsSuccess, h]

end Php

/-- **A response is taken for a success exactly when it reports one or is one of the mistaken
kinds.** -/
theorem Php.checkRet_eq_true_iff (php : Php) (res : CurlResult) :
    php.checkRet res = some true ↔ php.ReportsSuccess res ∨ php.Mistaken res := by
  cases res with
  | failed =>
      have hnull : php.jsonDecode CurlResult.failed.jsonData = .null :=
        php.jsonDecode_of_parse_eq_none php.parse_nil
      refine iff_of_true (php.checkRet_of_offsetRet_eq_null ?_) (.inr trivial)
      rw [hnull]
      rfl
  | body text =>
      cases hparse : php.parse text with
      | none =>
          have hnull : php.jsonDecode (CurlResult.body text).jsonData = .null :=
            php.jsonDecode_of_parse_eq_none hparse
          refine iff_of_true (php.checkRet_of_offsetRet_eq_null ?_) (.inr ?_)
          · rw [hnull]
            rfl
          · simp [Mistaken, hparse]
      | some v =>
          rw [php.reportsSuccess_body hparse]
          cases v with
          | str s => simp [php.checkRet_str hparse, Mistaken, hparse]
          | obj members =>
              by_cases hdepth : (Json.obj members).depth ≤ jsonDepth
              · simp [php.checkRet_obj hparse hdepth, Mistaken, hparse, hdepth]
              · -- too deep: `null`, a success whatever its members are
                have hnull : php.jsonDecode (CurlResult.body text).jsonData = .null :=
                  php.jsonDecode_of_too_deep hparse hdepth
                have htrue : php.checkRet (.body text) = some true := by
                  apply php.checkRet_of_offsetRet_eq_null
                  rw [hnull]
                  rfl
                by_cases hret : Json.retMember members = some (.num 0) <;>
                  simp [htrue, Mistaken, hparse, hdepth, hret]
          | null | bool _ | num _ | arr _ =>
              -- decoded or too deep, there is no offset
              refine iff_of_true (php.checkRet_of_offsetRet_eq_null ?_) (.inr ?_)
              · simp only [CurlResult.jsonData, jsonDecode, hparse]
                split <;> rfl
              · simp [Mistaken, hparse]

/-- No response is both. -/
theorem Php.not_mistaken_of_reportsSuccess {php : Php} {res : CurlResult}
    (h : php.ReportsSuccess res) : ¬ php.Mistaken res := by
  obtain ⟨text, members, rfl, hparse, hret⟩ := h
  by_cases hdepth : (Json.obj members).depth ≤ jsonDepth <;>
    simp [Mistaken, hparse, hdepth, hret, LooseZero]

/-! ## Soundness of the result -/

/-- **A call that returns `true` has been told so by the server exactly when it makes no request or
its response is none of the mistaken kinds.** -/
theorem SdkCall.sound_iff (skt : SkytimeSdk) (php : Php) (curlExec : HttpPost → CurlResult)
    (call : SdkCall) :
    (call.run skt php curlExec = some true →
        ∃ p, call.post skt php = some p ∧ php.ReportsSuccess (curlExec p)) ↔
      ∀ p, call.post skt php = some p → ¬ php.Mistaken (curlExec p) := by
  rw [call.run_eq]
  cases hpost : call.post skt php with
  | none => simp
  | some p =>
      simp only [Option.some.injEq, exists_eq_left', forall_eq', php.checkRet_eq_true_iff]
      constructor
      · intro h hbad
        exact Php.not_mistaken_of_reportsSuccess (h (.inr hbad)) hbad
      · rintro hgood (h | hbad)
        · exact h
        · exact absurd hbad hgood

/-! ## A refusal that is taken for a success -/

/-- What a reply sends; `marshal` is `json.Marshal` of the keys `ret` and `msg`. -/
def ReplyBody.bytes (marshal : ℤ → String → List UInt8) : ReplyBody → List UInt8
  | .empty => []
  | .text t => bytesOf (t ++ "\n")
  | .jsonRet ret msg => marshal ret msg

/-- `{"msg":"OK","ret":0}`. -/
def okBody : List UInt8 :=
  [0x7b, 0x22, 0x6d, 0x73, 0x67, 0x22, 0x3a, 0x22, 0x4f, 0x4b, 0x22, 0x2c, 0x22, 0x72, 0x65, 0x74,
    0x22, 0x3a, 0x30, 0x7d]

/-- PHP 5, as far as the bodies `okBody` and `[]` need it. -/
def phpFive : Php where
  parse := fun text =>
    if text = okBody then
      some (.obj [(bytesOf "msg", .str (bytesOf "OK")), (bytesOf "ret", .num 0)])
    else none
  parse_nil := if_neg (by decide)
  jsonEncode := fun _ _ => none
  looseEqZero := fun s => s.all (· == 0x30)
  stringOffset := fun s => some (s.take 1)

/-- The console is closed to all addresses. -/
def closedEnv : HttpEnv := { openEnv with checkConsoleIpf := fun _ => false }

/-- What `curl_exec` gets from a handler. -/
def responseOf (handler : HttpRequest → Outcome) (marshal : ℤ → String → List UInt8)
    (p : HttpPost) : CurlResult :=
  .body ((handler ⟨"10.0.0.9:4711", true, p.postfields, false⟩).reply.body.bytes marshal)

def localSdk : SkytimeSdk := ⟨"127.0.0.1", "8000"⟩

/-- Both functions return `true` to an address that the server has turned away. -/
theorem refusal_returns_true :
    (SdkCall.broadcastAll [0x68, 0x69] 3).run localSdk phpFive
        (responseOf (apiBroadcastAll closedEnv) fun _ _ => okBody) = some true ∧
      (SdkCall.broadcastPeers [0x68, 0x69] (some [[0x61]]) 3).run localSdk phpFive
        (responseOf (apiBroadcastPeers closedEnv) fun _ _ => okBody) = some true ∧
      ∀ p, ¬ phpFive.ReportsSuccess (responseOf (apiBroadcastAll closedEnv) (fun _ _ => okBody) p) ∧
        ¬ phpFive.ReportsSuccess
          (responseOf (apiBroadcastPeers closedEnv) (fun _ _ => okBody) p) := by
  have hmistaken : phpFive.Mistaken (.body []) := by simp [Php.Mistaken, phpFive.parse_nil]
  have htrue : phpFive.checkRet (.body []) = some true :=
    (phpFive.checkRet_eq_true_iff _).mpr (.inr hmistaken)
  have hno : ¬ phpFive.ReportsSuccess (.body []) := fun h =>
    Php.not_mistaken_of_reportsSuccess h hmistaken
  refine ⟨?_, ?_, fun p => ⟨hno, hno⟩⟩
  · rw [SdkCall.run_eq]
    show phpFive.checkRet (.body []) = some true
    exact htrue
  · rw [SdkCall.run_eq]
    show phpFive.checkRet (.body []) = some true
    exact htrue

end Skytime
