/-
# Skytime.Server.MainConfig — what `main` takes from the configuration file.

`main` loads the file in `InitConfigFromFile` and once more behind it, and exits when a load fails.
Then it reads the fields one by one, each with a default; an error of a field is logged and its
value used all the same. `Load` never asks the scanner for its error, so that a line too long for
the scanner makes everything behind it absent, without any error.
-/
import Skytime.Server.Cfg

namespace Skytime

open Process

/-! ## The fields -/

/-- What the text of a field is for `strconv.Atoi`. -/
def Cfg.field (c : Cfg) (k : List UInt8) : ConfigField :=
  match c.m.lookup k with
  | none => .absent
  | some v => ((parseInt v).map ConfigField.integer).getD .unparsable

/-- The fields that `hub_rooms.run` reads. -/
def Cfg.hubConfig (c : Cfg) : Config where
  maxPingInterval := c.field (utf8 "max_ping_interval")
  maxRoomLimit := c.field (utf8 "max_room_limit")
  maxWaitTtl := c.field (utf8 "max_wait_ttl")
  maxRetryTtl := c.field (utf8 "max_retry_ttl")

/-- The value of `ReadInt`, with or without an error, is that of the field. -/
theorem readInt_field (c : Cfg) (k : List UInt8) (dflt : Int64) :
    (c.readInt k dflt).1 = readInt (c.field k) dflt := by
  unfold Cfg.readInt Cfg.field
  cases c.m.lookup k with
  | none => rfl
  | some v =>
      show (atoi v).1 = readInt (((parseInt v).map ConfigField.integer).getD .unparsable) dflt
      unfold atoi
      cases parseInt v with
      | none => rfl
      | some n => rfl

/-- The settings of `main`. -/
structure MainConfig where
  enableVerboseLog : Int64
  maxConnLimit : Int64
  clientIpLimit : List UInt8
  consoleIpLimit : List UInt8
  appServerIp : List UInt8
  /-- of `hrooms.run( config )` -/
  rooms : Settings
  enableAckRto : Int64
  enableWebConsole : Int64
  listenAddr : List UInt8
  enableGraceful : Int64
  maxDetectPeerInterval : Int64

def Cfg.mainConfig (c : Cfg) : MainConfig where
  enableVerboseLog := (c.readInt (utf8 "enable_verbose_log") 0).1
  maxConnLimit := (c.readInt (utf8 "max_conn_limit") 100000).1
  clientIpLimit := (c.readString (utf8 "client_ip_limit") (utf8 "127.0.0.1")).1
  consoleIpLimit := (c.readString (utf8 "console_ip_limit") (utf8 "127.0.0.1")).1
  appServerIp := (c.readString (utf8 "app_server_ip") (utf8 "127.0.0.1")).1
  rooms := c.hubConfig.run
  enableAckRto := (c.readInt (utf8 "enable_ack_rto") 0).1
  enableWebConsole := (c.readInt (utf8 "enable_web_console") 0).1
  listenAddr := (c.readString (utf8 "listen_addr") (utf8 "127.0.0.1:8000")).1
  enableGraceful := (c.readInt (utf8 "enable_graceful") 0).1
  maxDetectPeerInterval := (c.readInt (utf8 "detect_peer_interval") (-1)).1

/-! ## Starting -/

/-- `InitConfigFromFile`. -/
def initConfigFromFile (filename : List UInt8) (file : Option (List UInt8)) : Except CfgError Cfg :=
  match (Cfg.new filename).load file with
  | (ret, none) => .ok ret
  | (_, some err) => .error err

/-- What comes of the second load; `none` is `os.Exit(0)`. -/
def mainOf : Cfg × Option CfgError → Option MainConfig
  | (config, none) => some config.mainConfig
  | (_, some _) => none

/-- The start of `main`, with the file as it is found by each of the two loads. -/
def startConfig (filename : List UInt8) (file file' : Option (List UInt8)) : Option MainConfig :=
  match initConfigFromFile filename file with
  | .error _ => none
  | .ok config => mainOf (config.load file')

/-- The second load of a file that stays as it is makes no difference. -/
theorem startConfig_same (filename : List UInt8) (file : Option (List UInt8)) :
    startConfig filename file file = mainOf ((Cfg.new filename).load file) := by
  have htwice := load_load (Cfg.new filename) file
  unfold startConfig initConfigFromFile
  cases hload : (Cfg.new filename).load file with
  | mk config err =>
      rw [hload] at htwice
      cases err with
      | none => exact congrArg mainOf htwice
      | some err => rfl

/-- A server finds what was saved. -/
theorem startConfig_saved {c : Cfg} (hall : ∀ k v, c.m.lookup k = some v → Writable k v)
    {order : List (List UInt8)} (h : c.m.Range order) :
    startConfig c.fname (some (c.save order)) (some (c.save order)) = some c.mainConfig := by
  rw [startConfig_same, load_save_writable hall h]
  rfl

/-! ## The lines that are taken -/

/-- A line that `Load` takes. -/
def LineOk (text : List UInt8) : Prop :=
  trim space text = [] ∨ (trim space text).head? = some hash ∨ equals ∈ trim space text

theorem cfgLine_eq_invalid_iff (text : List UInt8) : cfgLine text = .invalid ↔ ¬ LineOk text := by
  unfold cfgLine LineOk cut
  by_cases hskip : (trim space text).head? = some hash ∨ trim space text = []
  · rw [if_pos hskip]
    obtain hhash | hnil := hskip
    · simp [hhash]
    · simp [hnil]
  · rw [if_neg hskip]
    rw [not_or] at hskip
    by_cases hmem : equals ∈ trim space text
    · simp [hmem]
    · simp [hmem, hskip]

theorem lineOk_of_cfgLine {text : List UInt8} {l : CfgLine} (h : cfgLine text = l)
    (hl : l ≠ .invalid) : LineOk text := by
  by_contra hnot
  exact hl (h.symm.trans ((cfgLine_eq_invalid_iff text).mpr hnot))

theorem assigned_snd_iff (lines : List (List UInt8)) :
    (assigned lines).2 = true ↔ ∀ text ∈ lines, LineOk text := by
  fun_induction assigned lines with
  | case1 => simp
  | case2 text rest htext ih =>
      have hok : LineOk text := lineOk_of_cfgLine htext (by simp)
      rw [ih, List.forall_mem_cons]
      exact (and_iff_right hok).symm
  | case3 text rest k v htext ih =>
      have hok : LineOk text := lineOk_of_cfgLine htext (by simp)
      show (assigned rest).2 = true ↔ _
      rw [ih, List.forall_mem_cons]
      exact (and_iff_right hok).symm
  | case4 text rest htext =>
      have hnot := (cfgLine_eq_invalid_iff text).mp htext
      simp [hnot]

theorem mainOf_isSome_iff (filename data : List UInt8) :
    (mainOf ((Cfg.new filename).load (some data))).isSome ↔
      ∀ text ∈ scanLines data, LineOk text := by
  rw [← assigned_snd_iff, ← loadLines_snd ∅]
  show (mainOf (_, ite ((loadLines ∅ (scanLines data)).2 = true) _ _)).isSome ↔ _
  cases (loadLines ∅ (scanLines data)).2 with
  | false => simp [mainOf]
  | true => simp [mainOf]

/-! ## A line that is too long -/

/-- The text of a file with a line that does not fit the scanner, and lines before it. -/
def longFile (lines : List (List UInt8)) (long rest : List UInt8) : List UInt8 :=
  unlines lines ++ (long ++ rest)

/-- A server whose file has a line that is too long starts if the lines before the first such line
can be taken, and has the settings of these lines, whatever is behind it. -/
theorem startConfig_longFile (filename : List UInt8) {lines : List (List UInt8)}
    (hlines : ∀ line ∈ lines, lineFeed ∉ line) {long : List UInt8} (hlong : lineFeed ∉ long)
    (hlen : maxScanTokenSize ≤ long.length) (rest : List UInt8) :
    startConfig filename (some (longFile lines long rest)) (some (longFile lines long rest)) =
        startConfig filename (some (unlines lines)) (some (unlines lines)) ∧
      ((startConfig filename (some (longFile lines long rest))
          (some (longFile lines long rest))).isSome ↔
        ∀ line ∈ lines.takeWhile (Short ·), LineOk (dropCR line)) := by
  have hscan : scanLines (longFile lines long rest) = (lines.takeWhile (Short ·)).map dropCR := by
    rw [longFile, scanLines_unlines hlines, scanLines_tooLong hlong hlen, ite_self, List.append_nil]
  have hfront : scanLines (unlines lines) = (lines.takeWhile (Short ·)).map dropCR :=
    scanLines_unlines_end hlines
  have hload : (Cfg.new filename).load (some (longFile lines long rest)) =
      (Cfg.new filename).load (some (unlines lines)) := by
    show (_, _) = (_, _)
    rw [hscan, hfront]
  rw [startConfig_same, startConfig_same, hload]
  refine ⟨rfl, ?_⟩
  rw [mainOf_isSome_iff, hfront]
  exact List.forall_mem_map

/-- A file with an overlong comment in front of a text that is no assignment. -/
theorem startConfig_longFile_comment :
    startConfig (utf8 "skytime.conf") (some (longFile [] (List.replicate 65536 hash) [lineFeed, 65]))
        (some (longFile [] (List.replicate 65536 hash) [lineFeed, 65])) =
      startConfig (utf8 "skytime.conf") (some (unlines [])) (some (unlines [])) :=
  (@startConfig_longFile (utf8 "skytime.conf") [] (fun _ h => absurd h List.not_mem_nil)
    (List.replicate 65536 hash) (fun h => absurd (List.eq_of_mem_replicate h) (by decide))
    (by rw [List.length_replicate]; exact Nat.le_refl _) [lineFeed, 65]).1

end Skytime
