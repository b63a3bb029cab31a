/-
# Skytime.Server.Cfg — the package `cfg`: a file of `key=value` lines.

`Load` goes through the lines of the file and assigns to the map, on top of what it holds; a line
without `=` ends it with an error, what came before stays assigned. `Save` writes the entries of the
map in any order. What `Load` has assigned can be written and read again, with two exceptions that
nobody checks: a value with a carriage return at its end, which the scanner takes for the end of
the line, and an entry that is too long for the scanner, which hides all that is behind it.
-/
import Skytime.Process.Decimal
import Skytime.Process.GoMap
import Skytime.Process.Lines
import Skytime.Rooms.Startup

namespace Skytime

open Process

/-! ## Loading and saving -/

def space : UInt8 := 32

def hash : UInt8 := 35

def equals : UInt8 := 61

/-- The bytes of a text of the source. -/
def utf8 (s : String) : List UInt8 := s.toUTF8.toList

inductive CfgError where
  /-- the error of `os.Open` -/
  | cannotOpen
  /-- an error of `fmt.Errorf` with this text -/
  | errorf (text : List UInt8)
  /-- the error of `strconv.Atoi` -/
  | atoi (err : NumError)
  deriving DecidableEq, Repr

/-- `ErrNotExists`. -/
def errNotExists (fieldName : List UInt8) : CfgError :=
  .errorf (utf8 "no such field: " ++ fieldName)

/-- `ErrInvalidCfgFile`. -/
def errInvalidCfgFile (cfgFile : List UInt8) : CfgError :=
  .errorf (utf8 "invalid config file: " ++ cfgFile)

/-- What `Load` makes of a line. -/
inductive CfgLine where
  | skip
  | assign (k v : List UInt8)
  | invalid
  deriving DecidableEq, Repr

def cfgLine (text : List UInt8) : CfgLine :=
  if (trim space text).head? = some hash ∨ trim space text = [] then .skip
  else
    match cut equals (trim space text) with
    | none => .invalid
    | some (k, v) => .assign (trim space k) (trim space v)

/-- The loop of `Load`, and whether it comes to the end. -/
def loadLines (m : GoMap (List UInt8) (List UInt8)) :
    List (List UInt8) → GoMap (List UInt8) (List UInt8) × Bool
  | [] => (m, true)
  | text :: rest =>
    match cfgLine text with
    | .skip => loadLines m rest
    | .assign k v => loadLines (m.insert k v) rest
    | .invalid => (m, false)

/-- The text of an entry in `Save`. -/
def entryLine (k v : List UInt8) : List UInt8 := k ++ equals :: v

/-- `Cfg`, without its lock. -/
@[ext]
structure Cfg where
  fname : List UInt8
  m : GoMap (List UInt8) (List UInt8)

namespace Cfg

/-- `NewCfg`. -/
def new (filename : List UInt8) : Cfg := ⟨filename, ∅⟩

/-- `Load`, of a file that can be opened and has this content, or cannot be opened. -/
def load (c : Cfg) : Option (List UInt8) → Cfg × Option CfgError
  | none => (c, some .cannotOpen)
  | some data =>
    ({ c with m := (loadLines c.m (scanLines data)).1 },
      if (loadLines c.m (scanLines data)).2 then none else some (errInvalidCfgFile c.fname))

/-- What `Save` writes when `range` visits the map in this order. -/
def save (c : Cfg) (order : List (List UInt8)) : List UInt8 :=
  unlines (order.map fun k => entryLine k ((c.m.lookup k).getD []))

/-- `ReadString`. -/
def readString (c : Cfg) (k dflt : List UInt8) : List UInt8 × Option CfgError :=
  match c.m.lookup k with
  | some v => (v, none)
  | none => (dflt, some (errNotExists k))

/-- `ReadInt`. -/
def readInt (c : Cfg) (k : List UInt8) (dflt : Int64) : Int64 × Option CfgError :=
  match c.m.lookup k with
  | some v => ((atoi v).1, (atoi v).2.map .atoi)
  | none => (dflt, some (errNotExists k))

/-- `WriteString`. -/
def writeString (c : Cfg) (k val : List UInt8) : Cfg := { c with m := c.m.insert k val }

/-- `WriteInt`. -/
def writeInt (c : Cfg) (k : List UInt8) (val : Int64) : Cfg :=
  { c with m := c.m.insert k (itoa val) }

end Cfg

/-! ## What a load assigns -/

/-- The assignments of the lines before the first invalid one, and whether there is none. -/
def assigned : List (List UInt8) → List (List UInt8 × List UInt8) × Bool
  | [] => ([], true)
  | text :: rest =>
    match cfgLine text with
    | .skip => assigned rest
    | .assign k v => ((k, v) :: (assigned rest).1, (assigned rest).2)
    | .invalid => ([], false)

theorem loadLines_snd (m : GoMap (List UInt8) (List UInt8)) (lines : List (List UInt8)) :
    (loadLines m lines).2 = (assigned lines).2 := by
  fun_induction loadLines m lines with
  | case1 m => rfl
  | case2 m text rest htext ih => rw [ih, assigned, htext]
  | case3 m text rest k v htext ih => rw [ih, assigned, htext]
  | case4 m text rest htext => rw [assigned, htext]

/-- The last assignment to a key counts, and a key that no line assigns to keeps its value. -/
theorem lookup_loadLines (m : GoMap (List UInt8) (List UInt8)) (lines : List (List UInt8))
    (k : List UInt8) :
    (loadLines m lines).1.lookup k = ((assigned lines).1.reverse.lookup k).or (m.lookup k) := by
  fun_induction loadLines m lines with
  | case1 m => rfl
  | case2 m text rest htext ih => rw [ih, assigned, htext]
  | case3 m text rest k' v htext ih =>
      rw [ih, assigned, htext]
      show _ = (((k', v) :: (assigned rest).1).reverse.lookup k).or (m.lookup k)
      rw [List.reverse_cons, List.lookup_append, Option.or_assoc, GoMap.lookup_insert]
      by_cases hk : k = k'
      · simp [hk]
      · have hne : (k == k') = false := beq_eq_false_iff_ne.mpr hk
        rw [if_neg hk, List.lookup_cons, hne]
        rfl
  | case4 m text rest htext =>
      rw [assigned, htext]
      rfl

/-- Loading the same file again changes nothing, as `main` does behind `InitConfigFromFile`. -/
theorem load_load (c : Cfg) (file : Option (List UInt8)) :
    (c.load file).1.load file = c.load file := by
  cases file with
  | none => rfl
  | some data =>
      apply Prod.ext
      · apply Cfg.ext
        · rfl
        · refine Finmap.ext_lookup fun k => ?_
          show (loadLines (loadLines c.m _).1 _).1.lookup k = (loadLines c.m _).1.lookup k
          rw [lookup_loadLines, lookup_loadLines, ← Option.or_assoc, Option.or_self]
      · show ite ((loadLines (loadLines c.m _).1 _).2 = true) _ _ = _
        rw [loadLines_snd]
        show _ = ite ((loadLines c.m _).2 = true) _ _
        rw [loadLines_snd]
        rfl

/-! ## The entries that can be read -/

/-- A key as `Load` assigns to it. -/
structure KeyOk (k : List UInt8) : Prop where
  trimmed : Trimmed space k
  oneLine : lineFeed ∉ k
  noEquals : equals ∉ k
  noComment : k.head? ≠ some hash

/-- A key and a value as `Load` assigns them. -/
structure EntryOk (k v : List UInt8) : Prop where
  key : KeyOk k
  trimmed : Trimmed space v
  oneLine : lineFeed ∉ v

theorem cfgLine_entryOk {text k v : List UInt8} (hline : lineFeed ∉ text)
    (h : cfgLine text = .assign k v) : EntryOk k v := by
  rw [cfgLine] at h
  split_ifs at h with hskip
  rw [not_or] at hskip
  cases hcut : cut equals (trim space text) with
  | none =>
      rw [hcut] at h
      exact absurd h (by simp)
  | some p =>
      obtain ⟨k', v'⟩ := p
      rw [hcut] at h
      obtain ⟨rfl, rfl⟩ := CfgLine.assign.inj h
      obtain ⟨hnot, htext⟩ := cut_eq_some hcut
      have hfeed : lineFeed ∉ k' ++ equals :: v' := fun hmem =>
        hline ((trim_within space text).subset (htext ▸ hmem))
      have hk : trim space k' ⊆ k' := (trim_within space k').subset
      have hv : trim space v' ⊆ v' := (trim_within space v').subset
      -- nothing is taken from the front of the key
      have hpre : trim space k' <+: trim space text := by
        have hhead : k'.head? ≠ some space := fun hspace =>
          (trimmed_trim space text).head (htext ▸ head_of_front (List.prefix_append k' _) hspace)
        rw [trim, dropWhile_of_head hhead, htext]
        exact (List.rdropWhile_prefix _ _).trans (List.prefix_append k' _)
      exact
        { key :=
            { trimmed := trimmed_trim space k'
              oneLine := fun hmem => hfeed (List.mem_append_left _ (hk hmem))
              noEquals := fun hmem => hnot (hk hmem)
              noComment := fun hhead => hskip.1 (head_of_front hpre hhead) }
          trimmed := trimmed_trim space v'
          oneLine := fun hmem =>
            hfeed (List.mem_append_right _ (List.mem_cons_of_mem _ (hv hmem))) }

theorem assigned_entryOk {lines : List (List UInt8)} (h : ∀ text ∈ lines, lineFeed ∉ text) :
    ∀ p ∈ (assigned lines).1, EntryOk p.1 p.2 := by
  fun_induction assigned lines with
  | case1 => simp
  | case2 text rest htext ih => exact ih fun t ht => h t (List.mem_cons_of_mem text ht)
  | case3 text rest k v htext ih =>
      intro p hp
      rcases List.mem_cons.mp hp with rfl | hp
      · exact cfgLine_entryOk (h text List.mem_cons_self) htext
      · exact ih (fun t ht => h t (List.mem_cons_of_mem text ht)) p hp
  | case4 text rest htext => simp

/-! ## Reading what was saved -/

/-- What is read of a value: a carriage return at its end is taken for the end of the line. -/
def readBack (v : List UInt8) : List UInt8 := trim space (dropCR v)

theorem dropCR_entryLine (k v : List UInt8) : dropCR (entryLine k v) = entryLine k (dropCR v) := by
  unfold dropCR entryLine
  cases v using List.reverseRecOn with
  | nil =>
      have hlast : (k ++ [equals]).getLast? ≠ some carriageReturn := by
        rw [List.getLast?_concat]
        decide
      rw [if_neg hlast]
      rfl
  | append_singleton v b =>
      rw [← List.cons_append, ← List.append_assoc, List.getLast?_concat, List.getLast?_concat,
        List.dropLast_concat, List.dropLast_concat]
      split
      · rfl
      · rw [List.append_assoc, List.cons_append]

theorem cfgLine_entryLine {k : List UInt8} (h : KeyOk k) (v : List UInt8) :
    cfgLine (entryLine k v) = .assign k (trim space v) := by
  have hstart : (k ++ equals :: v).head? ≠ some space := by
    cases k with
    | nil => simp [equals, space]
    | cons a k => exact h.trimmed.head
  have htrim : trim space (entryLine k v) = entryLine k (v.rdropWhile (· == space)) := by
    rw [trim, entryLine, dropWhile_of_head hstart, rdropWhile_append_cons (by decide)]
    rfl
  have hhash : (entryLine k (v.rdropWhile (· == space))).head? ≠ some hash := by
    cases k with
    | nil => simp [entryLine, equals, hash]
    | cons a k => exact h.noComment
  have hne : entryLine k (v.rdropWhile (· == space)) ≠ [] := by simp [entryLine]
  rw [cfgLine, htrim, if_neg (by rw [not_or]; exact ⟨hhash, hne⟩), entryLine,
    cut_append h.noEquals]
  show CfgLine.assign (trim space k) (trim space (v.rdropWhile (· == space))) = _
  rw [h.trimmed.trim_eq, trim_rdropWhile]

theorem assigned_entryLines {ks : List (List UInt8)} (h : ∀ k ∈ ks, KeyOk k)
    (f : List UInt8 → List UInt8) :
    assigned (ks.map fun k => dropCR (entryLine k (f k))) =
      (ks.map fun k => (k, readBack (f k)), true) := by
  induction ks with
  | nil => rfl
  | cons k ks ih =>
      have hk := cfgLine_entryLine (h k List.mem_cons_self) (dropCR (f k))
      rw [List.map_cons, dropCR_entryLine, assigned, hk,
        ih fun k' hk' => h k' (List.mem_cons_of_mem k hk')]
      rfl

theorem lookup_map_pair (ks : List (List UInt8)) (g : List UInt8 → List UInt8) (k : List UInt8) :
    (ks.map fun k => (k, g k)).lookup k = if k ∈ ks then some (g k) else none := by
  induction ks with
  | nil => rfl
  | cons k' ks ih =>
      rw [List.map_cons, List.lookup_cons, ih]
      by_cases hk : k = k'
      · simp [hk]
      · have hne : (k == k') = false := beq_eq_false_iff_ne.mpr hk
        rw [hne]
        simp [hk]

/-- The entry that `Save` writes for a key. -/
def Cfg.line (c : Cfg) (k : List UInt8) : List UInt8 := entryLine k ((c.m.lookup k).getD [])

/-- The keys that `Save` writes before the first line that is too long. -/
def Cfg.readable (c : Cfg) (order : List (List UInt8)) : List (List UInt8) :=
  order.takeWhile fun k => Short (c.line k)

/-- What is read of a saved file: no error, and the entries before the first that is too long. -/
theorem load_save {c : Cfg} (hok : ∀ k v, c.m.lookup k = some v → KeyOk k ∧ lineFeed ∉ v)
    {order : List (List UInt8)} (h : c.m.Range order) (fname : List UInt8) :
    ((Cfg.new fname).load (some (c.save order))).2 = none ∧
      ∀ k, ((Cfg.new fname).load (some (c.save order))).1.m.lookup k =
        if k ∈ c.readable order then (c.m.lookup k).map readBack else none := by
  have hkeys : ∀ k ∈ order, KeyOk k := fun k hk => by
    obtain ⟨v, hv⟩ := h.mem_iff.mp hk
    exact (hok k v hv).1
  have hfeed : ∀ line ∈ order.map c.line, lineFeed ∉ line := by
    intro line hline hmem
    obtain ⟨k, hk, rfl⟩ := List.mem_map.mp hline
    obtain ⟨v, hv⟩ := h.mem_iff.mp hk
    obtain ⟨hkey, hval⟩ := hok k v hv
    rw [Cfg.line, hv, Option.getD_some, entryLine, List.mem_append, List.mem_cons] at hmem
    obtain hmem | hmem | hmem := hmem
    · exact hkey.oneLine hmem
    · exact absurd hmem (by decide)
    · exact hval hmem
  have hscan : scanLines (c.save order) = (c.readable order).map fun k => dropCR (c.line k) := by
    have hlines := scanLines_unlines_end hfeed
    rwa [List.takeWhile_map, List.map_map] at hlines
  have hsub : c.readable order ⊆ order := (List.takeWhile_prefix _).subset
  have hassigned : assigned ((c.readable order).map fun k => dropCR (c.line k)) = _ :=
    assigned_entryLines (fun k hk => hkeys k (hsub hk)) fun k => (c.m.lookup k).getD []
  constructor
  · show ite ((loadLines ∅ (scanLines (c.save order))).2 = true) _ _ = none
    rw [loadLines_snd, hscan, hassigned]
    rfl
  · intro k
    show (loadLines ∅ (scanLines (c.save order))).1.lookup k = _
    rw [lookup_loadLines, hscan, hassigned, Finmap.lookup_empty, Option.or_none, ← List.map_reverse,
      lookup_map_pair]
    simp only [List.mem_reverse]
    split
    · rename_i hk
      obtain ⟨v, hv⟩ := h.mem_iff.mp (hsub hk)
      rw [hv]
      rfl
    · rfl

/-- An entry that can be written and read again. -/
structure Writable (k v : List UInt8) : Prop where
  entry : EntryOk k v
  noReturn : v.getLast? ≠ some carriageReturn
  short : Short (entryLine k v)

theorem readBack_eq_self {v : List UInt8} (htrim : Trimmed space v)
    (h : v.getLast? ≠ some carriageReturn) : readBack v = v := by
  rw [readBack, dropCR, if_neg h, htrim.trim_eq]

/-- A value with a carriage return at its end is read shorter. -/
theorem readBack_ne_self {v : List UInt8} (h : v.getLast? = some carriageReturn) :
    readBack v ≠ v := by
  intro heq
  have hle : (readBack v).length ≤ (dropCR v).length := (trim_within space _).length_le
  have hne : v ≠ [] := by
    rintro rfl
    exact absurd h (by simp)
  have hpos := List.length_pos_iff.mpr hne
  rw [heq, dropCR, if_pos h, List.length_dropLast] at hle
  omega

/-- Whatever a load into an empty map assigns has the form of an entry. -/
theorem entryOk_load (fname data : List UInt8) :
    ∀ k v, ((Cfg.new fname).load (some data)).1.m.lookup k = some v → EntryOk k v := by
  intro k v h
  have hlook : (loadLines ∅ (scanLines data)).1.lookup k = some v := h
  rw [lookup_loadLines, Finmap.lookup_empty, Option.or_none] at hlook
  have hmem : (k, v) ∈ (assigned (scanLines data)).1.reverse := by
    obtain ⟨before, behind, hlist, hnot⟩ := List.lookup_eq_some_iff.mp hlook
    rw [hlist]
    exact List.mem_append_right before List.mem_cons_self
  exact assigned_entryOk (lineFeed_notMem_scanLines data) (k, v) (List.mem_reverse.mp hmem)

theorem load_save_writable {c : Cfg} (hall : ∀ k v, c.m.lookup k = some v → Writable k v)
    {order : List (List UInt8)} (h : c.m.Range order) :
    (Cfg.new c.fname).load (some (c.save order)) = (c, none) := by
  have hok : ∀ k v, c.m.lookup k = some v → KeyOk k ∧ lineFeed ∉ v := fun k v hv =>
    ⟨(hall k v hv).entry.key, (hall k v hv).entry.oneLine⟩
  have hreadable : c.readable order = order := by
    rw [Cfg.readable, List.takeWhile_eq_self_iff]
    intro k hk
    obtain ⟨v, hv⟩ := h.mem_iff.mp hk
    rw [Cfg.line, hv]
    simpa using (hall k v hv).short
  obtain ⟨herr, hlook⟩ := load_save hok h c.fname
  refine Prod.ext (Cfg.ext rfl (Finmap.ext_lookup fun k => ?_)) herr
  rw [hlook k, hreadable]
  cases hv : c.m.lookup k with
  | none => rw [if_neg (h.notMem_of_absent hv)]
  | some v =>
      rw [if_pos (h.mem_iff.mpr ⟨v, hv⟩), Option.map_some,
        readBack_eq_self (hall k v hv).entry.trimmed (hall k v hv).noReturn]

/-- A saved file gives the entries back when each of them can be written, and only then, in
whatever order they are written. -/
theorem load_save_iff {c : Cfg} {order : List (List UInt8)} (h : c.m.Range order) :
    (Cfg.new c.fname).load (some (c.save order)) = (c, none) ↔
      ∀ k v, c.m.lookup k = some v → Writable k v := by
  refine ⟨fun hload k v hv => ?_, fun hall => load_save_writable hall h⟩
  have hentry := entryOk_load c.fname (c.save order)
  rw [hload] at hentry
  have hok : ∀ k v, c.m.lookup k = some v → KeyOk k ∧ lineFeed ∉ v := fun k v hv =>
    ⟨(hentry k v hv).key, (hentry k v hv).oneLine⟩
  have hread := (load_save hok h c.fname).2 k
  rw [hload, hv] at hread
  obtain ⟨hmem, hback⟩ := Option.ite_none_right_eq_some.mp hread.symm
  refine ⟨hentry k v hv, fun hlast => readBack_ne_self hlast (Option.some.inj hback), ?_⟩
  have hshort := List.mem_takeWhile_imp hmem
  rw [Cfg.line, hv] at hshort
  simpa using hshort

/-- A map with the entry `a=1`. -/
theorem load_save_iff_one :
    (Cfg.new []).load (some (Cfg.save ⟨[], Finmap.singleton [97] [49]⟩ [[97]])) =
        (⟨[], Finmap.singleton [97] [49]⟩, none) ↔
      ∀ k v, (Finmap.singleton [97] [49] : GoMap (List UInt8) (List UInt8)).lookup k = some v →
        Writable k v :=
  load_save_iff (c := ⟨[], Finmap.singleton [97] [49]⟩) (by decide)

/-! ## Writing an integer -/

theorem itoa_writable {k : List UInt8} (hk : KeyOk k) {val : Int64}
    (hshort : Short (entryLine k (itoa val))) : Writable k (itoa val) := by
  have hno : ∀ b ∈ itoa val, b ≠ space ∧ b ≠ lineFeed ∧ b ≠ carriageReturn := by
    intro b hb
    obtain rfl | ⟨v, hv, rfl⟩ := mem_itoa hb
    · decide
    · have hall : ∀ v : Fin 10, digitZero + UInt8.ofNat v ≠ space ∧
          digitZero + UInt8.ofNat v ≠ lineFeed ∧ digitZero + UInt8.ofNat v ≠ carriageReturn := by
        decide
      exact hall ⟨v, hv⟩
  exact
    { entry :=
        { key := hk
          trimmed :=
            { head := fun h => (hno space (List.mem_of_head? h)).1 rfl
              last := fun h => (hno space (List.mem_of_getLast? h)).1 rfl }
          oneLine := fun h => (hno lineFeed h).2.1 rfl }
      noReturn := fun h => (hno carriageReturn (List.mem_of_getLast? h)).2.2 rfl
      short := hshort }

theorem lookup_writeString (c : Cfg) (k val k' : List UInt8) :
    (c.writeString k val).m.lookup k' = if k' = k then some val else c.m.lookup k' :=
  GoMap.lookup_insert c.m k k' val

/-- A value that can be written leaves the map one that can be saved. -/
theorem Writable.writeString {c : Cfg} (hall : ∀ k v, c.m.lookup k = some v → Writable k v)
    {k val : List UInt8} (h : Writable k val) :
    ∀ k' v, (c.writeString k val).m.lookup k' = some v → Writable k' v := by
  intro k' v hv
  rw [lookup_writeString] at hv
  split at hv
  · rename_i heq
    rwa [heq, ← Option.some.inj hv]
  · exact hall k' v hv

theorem writeInt_eq (c : Cfg) (k : List UInt8) (val : Int64) :
    c.writeInt k val = c.writeString k (itoa val) := rfl

end Skytime
