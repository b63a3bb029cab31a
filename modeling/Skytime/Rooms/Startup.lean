/-
# Skytime.Rooms.Startup — `hub_rooms.run`: the configured values and what is made of them.

`run` reads four integers from the configuration. `max_ping_interval` and `max_room_limit` are
brought into a range, `max_wait_ttl` and `max_retry_ttl` are stored as they come; an error of
`ReadInt` is logged and its value is used all the same. The values are used later, in the goroutines
of the connections: a writer makes a ticker of the ping interval when it starts, and `writeRTO`
divides by `max_retry_ttl` at every tick for every entry it visits.
-/
import Skytime.Conn.Schedule
import Skytime.Process.Text

namespace Skytime

open Process

/-! ## Reading the configuration -/

/-- A field of the configuration file. -/
inductive ConfigField where
  | absent
  /-- a decimal integer, of any size -/
  | integer (n : ℤ)
  /-- any other text -/
  | unparsable
  deriving DecidableEq, Repr

/-- The value of `cfg.ReadInt`, which is used whether or not there is an error. `strconv.Atoi`
returns the nearest `int` for an integer that is out of range, and zero for other text. -/
def readInt (field : ConfigField) (dflt : Int64) : Int64 :=
  match field with
  | .absent => dflt
  | .integer n => Int64.ofIntClamp n
  | .unparsable => 0

/-- The fields that `hub_rooms.run` reads. -/
structure Config where
  maxPingInterval : ConfigField
  maxRoomLimit : ConfigField
  maxWaitTtl : ConfigField
  maxRetryTtl : ConfigField
  deriving DecidableEq, Repr

/-! ## The settings -/

/-- `time.Second`, in nanoseconds. -/
def second : Int64 := 1000000000

def pongWait : Int64 := 60 * second

def pingPeriod : Int64 := (pongWait * 9) / 10

def maxRoomNum : Int64 := 100

def reservedRoomNum : Int64 := 10

/-- The ids of the rooms, `fmt.Sprintf("room_%d", i)` for each `i` below the limit. -/
def roomIdsBelow (limit : ℕ) : List String := (List.range limit).map fun i => "room_" ++ toString i

/-- The id of a room tells its number. -/
theorem room_inj {i j : ℕ} (h : "room_" ++ toString i = "room_" ++ toString j) : i = j :=
  toString_inj.mp ((String.append_right_inj "room_").mp h)

/-- What `hub_rooms.run` leaves behind. -/
structure Settings where
  maxPingInterval : Int64
  roomsIds : List String
  rto : RtoConfig
  deriving DecidableEq, Repr

/-- `max_ping_interval`: a negative value stands for the default. -/
def pingInterval (field : ConfigField) : Int64 :=
  let interval := readInt field (-1)
  if interval < 0 then pingPeriod / second else interval

/-- `max_room_limit`, between `RESERVED_ROOM_NUM` and `MAX_ROOM_NUM`. -/
def roomLimit (field : ConfigField) : Int64 :=
  let limit := readInt field 10
  let limit := if limit > maxRoomNum then maxRoomNum else limit
  if limit < reservedRoomNum then reservedRoomNum else limit

/-- `hub_rooms.run`. -/
def Config.run (config : Config) : Settings where
  maxPingInterval := pingInterval config.maxPingInterval
  roomsIds := roomIdsBelow (roomLimit config.maxRoomLimit).toNatClampNeg
  rto := ⟨readInt config.maxRetryTtl 8, readInt config.maxWaitTtl 64⟩

example : (Config.run ⟨.absent, .absent, .absent, .absent⟩).maxPingInterval = 54 := by decide

/-! ## The writers -/

/-- `time.NewTicker`, which panics unless the duration is positive. -/
def newTicker (d : Int64) : Option Int64 := if d ≤ 0 then none else some d

/-- `time.NewTicker( time.Duration( max_ping_interval ) * time.Second )`. -/
def pingTicker (s : Settings) : Option Int64 := newTicker (s.maxPingInterval * second)

/-- The loop of the writer that `websocketHandler` starts: `writeRTO`, or `writePump` with the
outcome of its writes. -/
def writerLoop (enableAckRto : ℤ) (rto : RtoConfig) :
    Machine Writer (Bool × WriterEvent) WriterOut where
  init := ⟨∅, .running⟩
  step w e := if enableAckRto > 0 then w.rtoStep rto e.2 else w.pumpStep e.1 e.2

/-- No writer panics, at its start or later, whichever it is. -/
structure WritersSafe (s : Settings) : Prop where
  /-- both writers make this ticker; the interval of `rto_ticker` is a constant -/
  ticker : (pingTicker s).isSome
  loops : ∀ (enableAckRto : ℤ) (r : (writerLoop enableAckRto s.rto).Run),
    r.Always fun w _ => w.status ≠ .panicked

/-! ## When the ticker can be made -/

theorem newTicker_isSome_iff (d : Int64) : (newTicker d).isSome ↔ 0 < d.toInt := by
  unfold newTicker
  split
  · rename_i h
    rw [Int64.le_iff_toInt_le, Int64.toInt_zero] at h
    simp only [Option.isSome_none, Bool.false_eq_true, false_iff]
    omega
  · rename_i h
    rw [Int64.le_iff_toInt_le, Int64.toInt_zero] at h
    simp only [Option.isSome_some, true_iff]
    omega

/-- The value of an integer field: the nearest one of 64 bits. -/
theorem toInt_ofIntClamp (n : ℤ) :
    (Int64.ofIntClamp n).toInt = max (-2 ^ 63) (min n (2 ^ 63 - 1)) := by
  have hmin : Int64.minValue.toInt = -2 ^ 63 := by decide
  have hmax : Int64.maxValue.toInt = 2 ^ 63 - 1 := by decide
  unfold Int64.ofIntClamp
  split
  · split
    · rw [Int64.toInt_ofIntLE]
      omega
    · rw [hmax]
      omega
  · rw [hmin]
    omega

/-- A ticker can be made of the field: it is absent or negative, which stands for the default, or a
positive integer whose product with a second does not come out negative or zero in 64 bits. -/
def ConfigField.TickerOk : ConfigField → Prop
  | .absent => True
  | .integer n => n < 0 ∨ 0 < (min n (2 ^ 63 - 1) * 1000000000).bmod (2 ^ 64)
  | .unparsable => False

theorem pingInterval_of_neg {field : ConfigField} (h : (readInt field (-1)).toInt < 0) :
    pingInterval field = 54 := by
  have hneg : readInt field (-1) < 0 := by
    rw [Int64.lt_iff_toInt_lt, Int64.toInt_zero]
    exact h
  simp only [pingInterval, if_pos hneg]
  decide

theorem pingInterval_of_nonneg {field : ConfigField} (h : 0 ≤ (readInt field (-1)).toInt) :
    pingInterval field = readInt field (-1) := by
  have hneg : ¬ readInt field (-1) < 0 := by
    rw [Int64.lt_iff_toInt_lt, Int64.toInt_zero]
    omega
  simp only [pingInterval, if_neg hneg]

theorem ticker_iff (field : ConfigField) :
    (newTicker (pingInterval field * second)).isSome ↔ field.TickerOk := by
  -- fifty-four seconds are a positive duration
  have hdflt : (newTicker (54 * second)).isSome := by decide
  cases field with
  | absent =>
      rw [pingInterval_of_neg (by decide)]
      exact iff_of_true hdflt trivial
  | unparsable => exact iff_of_false (by decide) id
  | integer n =>
      have hval : (readInt (.integer n) (-1)).toInt = max (-2 ^ 63) (min n (2 ^ 63 - 1)) :=
        toInt_ofIntClamp n
      rcases lt_or_ge n 0 with hneg | hpos
      · rw [pingInterval_of_neg (by rw [hval]; omega)]
        exact iff_of_true hdflt (.inl hneg)
      · have hval : (readInt (.integer n) (-1)).toInt = min n (2 ^ 63 - 1) := by
          rw [hval]
          omega
        have hsecond : second.toInt = 1000000000 := by decide
        rw [pingInterval_of_nonneg (by rw [hval]; omega), newTicker_isSome_iff,
          Int64.toInt_mul, hval, hsecond]
        constructor
        · exact Or.inr
        · intro h
          exact h.resolve_left (by omega)

/-- Every interval up to some 292 years can be used. -/
theorem tickerOk_of_le {n : ℤ} (hpos : 0 < n) (hle : n ≤ 9223372036) :
    (ConfigField.integer n).TickerOk := by
  refine .inr ?_
  rw [min_eq_left (by omega), Int.bmod_eq_of_le (by omega) (by omega)]
  omega

/-! ## When the loops do not panic -/

/-- The field does not come out as zero. -/
def ConfigField.DivisorOk : ConfigField → Prop
  | .absent => True
  | .integer n => n ≠ 0
  | .unparsable => False

theorem divisor_iff (field : ConfigField) : readInt field 8 ≠ 0 ↔ field.DivisorOk := by
  cases field with
  | absent => exact iff_of_true (by decide) trivial
  | unparsable => exact iff_of_false (fun h => h rfl) id
  | integer n =>
      have hval := toInt_ofIntClamp n
      show Int64.ofIntClamp n ≠ 0 ↔ n ≠ 0
      rw [ne_eq, ne_eq, ← Int64.toInt_inj, hval, Int64.toInt_zero]
      omega

/-- With a non-zero divisor a round of either writer does not panic. -/
theorem writerLoop_status {enableAckRto : ℤ} {rto : RtoConfig} (h : rto.maxRetryTtl ≠ 0)
    {w w' : Writer} {e : Bool × WriterEvent} {o : List WriterOut}
    (hstep : (writerLoop enableAckRto rto).step w e = some (w', o)) : w'.status ≠ .panicked := by
  obtain ⟨ok, e⟩ := e
  simp only [writerLoop] at hstep
  split at hstep
  · have hround : (rtoWriter rto).step w e = some (w', o) := hstep
    obtain ⟨hrun, hcases⟩ := Writer.rtoStep_cases hround
    cases hcases with
    | message | ping | ack | tick =>
        simp only [hrun]
        decide
    | closed | pingFailed => simp
    | panic hwalk =>
        obtain ⟨p, hp⟩ := exists_rtoWalk h _ w.queue
        exact absurd (hp.symm.trans hwalk) (by simp)
  · exact (Writer.pumpStep_status hstep).2

/-- One peer message, and the first tick after it. -/
def oneTick : List (Bool × WriterEvent) := [(true, .message ⟨1, [], false⟩), (true, .tick [1])]

/-- With a zero divisor the first tick that finds an entry panics. -/
theorem oneTick_panics {rto : RtoConfig} (h : rto.maxRetryTtl = 0) :
    ∃ w l, (writerLoop 1 rto).exec oneTick = some (w, l) ∧ w.status = .panicked := by
  obtain ⟨maxRetryTtl, maxWaitTtl⟩ := rto
  obtain rfl : maxRetryTtl = 0 := h
  exact ⟨_, _, rfl, rfl⟩

theorem loops_iff (rto : RtoConfig) :
    (∀ (enableAckRto : ℤ) (r : (writerLoop enableAckRto rto).Run),
      r.Always fun w _ => w.status ≠ .panicked) ↔ rto.maxRetryTtl ≠ 0 := by
  constructor
  · intro hsafe hzero
    obtain ⟨w, l, hexec, hpanic⟩ := oneTick_panics hzero
    exact (hsafe 1 ⟨oneTick, w, l, hexec⟩).last hpanic
  · intro h enableAckRto r
    refine Machine.Run.always (by simp [writerLoop]) ?_ r
    intro w _ e w' o _ hstep
    exact writerLoop_status h hstep

/-! ## Which configurations are safe -/

/-- **After `hub_rooms.run` no writer panics exactly when a ticker can be made of the field
`max_ping_interval` and the field `max_retry_ttl` does not come out as zero.** -/
theorem writersSafe_iff (config : Config) :
    WritersSafe config.run ↔ config.maxPingInterval.TickerOk ∧ config.maxRetryTtl.DivisorOk := by
  constructor
  · intro h
    exact ⟨(ticker_iff _).mp h.ticker, (divisor_iff _).mp ((loops_iff _).mp h.loops)⟩
  · rintro ⟨hticker, hdivisor⟩
    exact ⟨(ticker_iff _).mpr hticker, (loops_iff _).mpr ((divisor_iff _).mpr hdivisor)⟩

/-- A ping interval of zero ends the process at the first connection, one of `2 ^ 63 - 1` as well,
and text for `max_retry_ttl` ends it at the first tick after a peer message. -/
theorem unsafeConfigs :
    ¬ WritersSafe (Config.run ⟨.integer 0, .absent, .absent, .absent⟩) ∧
      ¬ WritersSafe (Config.run ⟨.integer (2 ^ 63 - 1), .absent, .absent, .absent⟩) ∧
      ¬ WritersSafe (Config.run ⟨.absent, .absent, .absent, .unparsable⟩) := by
  refine ⟨fun h => ?_, fun h => ?_, fun h => ?_⟩
  · exact absurd h.ticker (by decide)
  · exact absurd h.ticker (by decide)
  · have hzero : (Config.run ⟨.absent, .absent, .absent, .unparsable⟩).rto.maxRetryTtl = 0 := rfl
    obtain ⟨w, l, hexec, hpanic⟩ := oneTick_panics hzero
    exact (h.loops 1 ⟨oneTick, w, l, hexec⟩).last hpanic

end Skytime
