import Zappy.Game
import Zappy.Lib.Lines
import Mathlib.Data.List.DropRight
import Mathlib.Data.List.Nodup

/-!
# The configuration file (`parse_config`)

The parser reads the file through a buffer of 256 bytes and takes what the buffer holds for a line.  What the file
means is said of its lines: a setting has the value that the last line about it gives.  The parser finds the meaning
of the lines cut into pieces of 255 bytes.

A byte of the file is written as the character with its code, and a floating constant of the source is the value that
`strtod` gives its text.
-/

namespace Zappy

open Lines

/-! ### Settings -/

/-- How `parse_config` converts a value. -/
inductive Conversion where
  | atoi | strtod | flag | copy
  deriving DecidableEq

/-- The type of a field of `config_t`, over a type of floating-point numbers. -/
def Conversion.Value (D : Type) : Conversion → Type
  | atoi => Int
  | strtod => D
  | flag => Bool
  | copy => String

/-- The fields of `config_t`. -/
inductive Setting where
  | initialLifeUnits | lifeUnitToTime
  | densityNourriture | densityLinemate | densityDeraumere | densitySibur | densityMendiane | densityPhiras
  | densityThystame
  | delayAvance | delayDroite | delayGauche | delayVoir | delayInventaire | delayPrend | delayPose | delayExpulse
  | delayBroadcast | delayIncantation | delayFork | delayConnectNbr
  | spawnMoreResources | spawnMoreResourcesTime
  | spawnMoreResourcesNourriture | spawnMoreResourcesLinemate | spawnMoreResourcesDeraumere
  | spawnMoreResourcesSibur | spawnMoreResourcesMendiane | spawnMoreResourcesPhiras | spawnMoreResourcesThystame
  | logLevel | logFilePath | logErase
  deriving DecidableEq

namespace Setting

def name : Setting → String
  | initialLifeUnits => "INITIAL_LIFE_UNITS"
  | lifeUnitToTime => "LIFE_UNIT_TO_TIME"
  | densityNourriture => "DENSITY_NOURRITURE"
  | densityLinemate => "DENSITY_LINEMATE"
  | densityDeraumere => "DENSITY_DERAUMERE"
  | densitySibur => "DENSITY_SIBUR"
  | densityMendiane => "DENSITY_MENDIANE"
  | densityPhiras => "DENSITY_PHIRAS"
  | densityThystame => "DENSITY_THYSTAME"
  | delayAvance => "DELAY_AVANCE"
  | delayDroite => "DELAY_DROITE"
  | delayGauche => "DELAY_GAUCHE"
  | delayVoir => "DELAY_VOIR"
  | delayInventaire => "DELAY_INVENTAIRE"
  | delayPrend => "DELAY_PREND"
  | delayPose => "DELAY_POSE"
  | delayExpulse => "DELAY_EXPULSE"
  | delayBroadcast => "DELAY_BROADCAST"
  | delayIncantation => "DELAY_INCANTATION"
  | delayFork => "DELAY_FORK"
  | delayConnectNbr => "DELAY_CONNECT_NBR"
  | spawnMoreResources => "SPAWN_MORE_RESOURCES"
  | spawnMoreResourcesTime => "SPAWN_MORE_RESOURCES_TIME"
  | spawnMoreResourcesNourriture => "SPAWN_MORE_RESOURCES_NOURRITURE"
  | spawnMoreResourcesLinemate => "SPAWN_MORE_RESOURCES_LINEMATE"
  | spawnMoreResourcesDeraumere => "SPAWN_MORE_RESOURCES_DERAUMERE"
  | spawnMoreResourcesSibur => "SPAWN_MORE_RESOURCES_SIBUR"
  | spawnMoreResourcesMendiane => "SPAWN_MORE_RESOURCES_MENDIANE"
  | spawnMoreResourcesPhiras => "SPAWN_MORE_RESOURCES_PHIRAS"
  | spawnMoreResourcesThystame => "SPAWN_MORE_RESOURCES_THYSTAME"
  | logLevel => "LOG_LEVEL"
  | logFilePath => "LOG_FILE_PATH"
  | logErase => "LOG_ERASE"

def conversion : Setting → Conversion
  | densityNourriture | densityLinemate | densityDeraumere | densitySibur | densityMendiane | densityPhiras
  | densityThystame | spawnMoreResourcesNourriture | spawnMoreResourcesLinemate | spawnMoreResourcesDeraumere
  | spawnMoreResourcesSibur | spawnMoreResourcesMendiane | spawnMoreResourcesPhiras
  | spawnMoreResourcesThystame => .strtod
  | spawnMoreResources | logErase => .flag
  | logFilePath => .copy
  | _ => .atoi

/-- The settings in the order in which `parse_config` compares their names. -/
def all : List Setting :=
  [initialLifeUnits, lifeUnitToTime, densityNourriture, densityLinemate, densityDeraumere, densitySibur,
    densityMendiane, densityPhiras, densityThystame, delayAvance, delayDroite, delayGauche, delayVoir,
    delayInventaire, delayPrend, delayPose, delayExpulse, delayBroadcast, delayIncantation, delayFork,
    delayConnectNbr, spawnMoreResources, spawnMoreResourcesTime, spawnMoreResourcesNourriture,
    spawnMoreResourcesLinemate, spawnMoreResourcesDeraumere, spawnMoreResourcesSibur, spawnMoreResourcesMendiane,
    spawnMoreResourcesPhiras, spawnMoreResourcesThystame, logLevel, logFilePath, logErase]

/-- The first setting with this name. -/
def ofName (key : List Char) : Option Setting := all.find? fun s => s.name.toList == key

end Setting

/-- `config_t`. -/
abbrev ConfigContent (D : Type) := (s : Setting) → s.conversion.Value D

variable {D : Type} (strtod : String → D)

/-- `m_init_config_content`. -/
def initConfigContent : ConfigContent D
  | .initialLifeUnits => (10 : Int)
  | .lifeUnitToTime => (126 : Int)
  | .densityNourriture => strtod "1.0"
  | .densityLinemate => strtod "0.02"
  | .densityDeraumere => strtod "0.02"
  | .densitySibur => strtod "0.04"
  | .densityMendiane => strtod "0.04"
  | .densityPhiras => strtod "0.04"
  | .densityThystame => strtod "0.005"
  | .delayAvance => (7 : Int)
  | .delayDroite => (7 : Int)
  | .delayGauche => (7 : Int)
  | .delayVoir => (7 : Int)
  | .delayInventaire => (1 : Int)
  | .delayPrend => (7 : Int)
  | .delayPose => (7 : Int)
  | .delayExpulse => (7 : Int)
  | .delayBroadcast => (7 : Int)
  | .delayIncantation => (300 : Int)
  | .delayFork => (42 : Int)
  | .delayConnectNbr => (0 : Int)
  | .spawnMoreResources => true
  | .spawnMoreResourcesTime => (100 : Int)
  | .spawnMoreResourcesNourriture => strtod "0.5"
  | .spawnMoreResourcesLinemate => strtod "0.02"
  | .spawnMoreResourcesDeraumere => strtod "0.02"
  | .spawnMoreResourcesSibur => strtod "0.04"
  | .spawnMoreResourcesMendiane => strtod "0.04"
  | .spawnMoreResourcesPhiras => strtod "0.04"
  | .spawnMoreResourcesThystame => strtod "0.005"
  | .logLevel => (2 : Int)
  | .logFilePath => "log.txt"
  | .logErase => true

/-- The value of a setting, converted as its branch of `parse_config` does it. -/
def Conversion.convert : (k : Conversion) → List Char → k.Value D
  | .atoi, val => Zappy.atoi (String.ofList val)
  | .strtod, val => strtod (String.ofList val)
  | .flag, val => val.head? == some 'y' || val.head? == some 'Y' || val.head? == some '1'
  | .copy, val => String.ofList val

/-! ### Parsing -/

/-- The loops that cut white space off the end of a key or a value, and never reach its first character. -/
def trimEnd (space : Char → Bool) : List Char → List Char
  | [] => []
  | c :: cs => c :: cs.rdropWhile space

/-- The body of the loop of `parse_config`, for a buffer that holds `line`. -/
def parseLine (config : ConfigContent D) (line : List Char) : ConfigContent D :=
  -- the functions of the C library see the buffer up to the first zero
  match (line.takeWhile (· != '\x00')).dropWhile isSpace with
  | [] | '#' :: _ | '\n' :: _ => config
  | p =>
    if '=' ∈ p then
      let key := trimEnd isSpace (p.takeWhile (· != '='))
      let val := trimEnd (fun c => isSpace c || c == '\r' || c == '\n')
        ((p.dropWhile (· != '=')).tail.dropWhile isSpace)
      match Setting.ofName key with
      | none => config
      | some s => Function.update config s (s.conversion.convert strtod val)
    else config

/-- The loop of `parse_config`: `fgets` fills a buffer of 256 bytes, the last of them with a zero. -/
def parseLoop : Nat → ConfigContent D → List Char → ConfigContent D
  | 0, config, _ => config
  | _ + 1, config, [] => config
  | fuel + 1, config, text =>
    parseLoop fuel (parseLine strtod config (readUpTo '\n' 255 text).1) (readUpTo '\n' 255 text).2

/-- `parse_config`, for the text of the file unless it cannot be opened. -/
def parseConfig : Option (List Char) → Ret × ConfigContent D
  | none => (.error, initConfigContent strtod)
  | some text => (.success, parseLoop strtod text.length (initConfigContent strtod) text)

/-! ### Meaning -/

/-- A text without the white space around it. -/
def trim (text : List Char) : List Char := (text.dropWhile isSpace).rdropWhile isSpace

/-- What a line says: the name before its first `=` and the value behind it, unless it is a comment. -/
def assignment (line : List Char) : Option (List Char × List Char) :=
  if (line.dropWhile isSpace).head? = some '#' then none
  else if '=' ∈ line then some (trim (line.takeWhile (· != '=')), trim (line.dropWhile (· != '=')).tail)
  else none

/-- The value that a line gives to a setting. -/
def Setting.valueIn (s : Setting) (line : List Char) : Option (List Char) :=
  (assignment line).bind fun a => if a.1 = s.name.toList then some a.2 else none

/-- What lines mean for a setting: the last value given, or the default. -/
def meaning (lines : List (List Char)) : ConfigContent D := fun s =>
  match (lines.filterMap s.valueIn).getLast? with
  | some val => s.conversion.convert strtod val
  | none => initConfigContent strtod s

/-- The lines of a text. -/
def linesOf (text : List Char) : List (List Char) := text.splitOn '\n'

/-! ### One line -/

/-- White space is dropped up to the first character that is none. -/
private theorem dropWhile_append_cons {c : Char} (hc : isSpace c = false) (l r : List Char) :
    (l ++ c :: r).dropWhile isSpace = l.dropWhile isSpace ++ c :: r := by
  rw [List.dropWhile_append]
  split
  · rename_i hempty
    rw [List.isEmpty_iff.1 hempty, List.nil_append, List.dropWhile_cons, hc, if_neg Bool.false_ne_true]
  · rfl

/-- What white space is followed by is none. -/
private theorem not_isSpace_of_dropWhile {l r : List Char} {c : Char} (h : l.dropWhile isSpace = c :: r) :
    isSpace c = false := by
  have hhead := List.head?_dropWhile_not isSpace l
  rw [h] at hhead
  simpa using hhead

/-- Both loops cut off all white space at the end of a text that begins with none. -/
private theorem trimEnd_eq {space : Char → Bool} (hspace : ∀ c, space c = isSpace c) (l : List Char) :
    trimEnd space (l.dropWhile isSpace) = trim l := by
  rw [show space = isSpace from funext hspace, trim]
  cases h : l.dropWhile isSpace with
  | nil => rfl
  | cons c r =>
    have hc := not_isSpace_of_dropWhile h
    rw [trimEnd]
    simp only [List.rdropWhile, List.reverse_cons, List.dropWhile_append]
    split
    · rename_i hempty
      rw [List.isEmpty_iff.1 hempty, List.dropWhile_cons, hc, if_neg Bool.false_ne_true]
      rfl
    · rw [List.reverse_append]
      rfl

/-- The newline characters are white space. -/
private theorem isSpace_or_newline (c : Char) : (isSpace c || c == '\r' || c == '\n') = isSpace c := by
  by_cases hr : c = '\r'
  · subst hr; rfl
  · by_cases hn : c = '\n'
    · subst hn; rfl
    · rw [beq_eq_false_iff_ne.2 hr, beq_eq_false_iff_ne.2 hn, Bool.or_false, Bool.or_false]

private theorem takeWhile_ne {before : List Char} (h : '=' ∉ before) (after : List Char) :
    (before ++ '=' :: after).takeWhile (· != '=') = before := by
  induction before with
  | nil => rfl
  | cons c before ih =>
    rw [List.mem_cons, not_or] at h
    rw [List.cons_append, List.takeWhile_cons, if_pos (bne_iff_ne.2 (Ne.symm h.1)), ih h.2]

private theorem dropWhile_ne {before : List Char} (h : '=' ∉ before) (after : List Char) :
    (before ++ '=' :: after).dropWhile (· != '=') = '=' :: after := by
  induction before with
  | nil => rfl
  | cons c before ih =>
    rw [List.mem_cons, not_or] at h
    rw [List.cons_append, List.dropWhile_cons, if_pos (bne_iff_ne.2 (Ne.symm h.1)), ih h.2]

private theorem assignment_eq {before : List Char} (h : '=' ∉ before) (after : List Char) :
    assignment (before ++ '=' :: after) =
      if (before.dropWhile isSpace).head? = some '#' then none else some (trim before, trim after) := by
  have hhead : (before.dropWhile isSpace ++ '=' :: after).head? = some '#' ↔
      (before.dropWhile isSpace).head? = some '#' := by
    cases before.dropWhile isSpace with
    | nil => simp
    | cons c cs => rfl
  simp only [assignment, dropWhile_append_cons (c := '=') rfl, takeWhile_ne h, dropWhile_ne h, List.tail_cons, hhead,
    List.mem_append, List.mem_cons, true_or, or_true, if_true]

/-- What an assignment does to the configuration. -/
def assign (config : ConfigContent D) : Option (List Char × List Char) → ConfigContent D
  | none => config
  | some (key, val) =>
    match Setting.ofName key with
    | none => config
    | some s => Function.update config s (s.conversion.convert strtod val)

/-- The body of the loop does what the line says. -/
private theorem parseLine_eq {line : List Char} (hnul : '\x00' ∉ line) (config : ConfigContent D) :
    parseLine strtod config line = assign strtod config (assignment line) := by
  have htext : line.takeWhile (· != '\x00') = line :=
    List.takeWhile_eq_self_iff.2 fun c hc => bne_iff_ne.2 fun h => hnul (h ▸ hc)
  rw [parseLine, htext]
  by_cases hmem : '=' ∈ line
  · obtain ⟨before, after, rfl, hbefore⟩ := List.eq_append_cons_of_mem hmem
    rw [assignment_eq hbefore, dropWhile_append_cons rfl]
    have hkey := trimEnd_eq (fun _ => rfl) before
    have hval := trimEnd_eq isSpace_or_newline after
    have hdropped : '=' ∉ before.dropWhile isSpace := fun h => hbefore ((List.dropWhile_sublist _).mem h)
    split
    · rename_i heq
      simp at heq
    · rename_i tail heq
      cases hb : before.dropWhile isSpace with
      | nil => rw [hb] at heq; cases heq
      | cons c cs =>
        rw [hb, List.cons_append, List.cons.injEq] at heq
        rw [List.head?_cons, heq.1, if_pos rfl]
        rfl
    · rename_i tail heq
      -- the first character is no white space
      exfalso
      rw [← dropWhile_append_cons rfl] at heq
      cases not_isSpace_of_dropWhile heq
    · rename_i hno _
      have hcomment : (before.dropWhile isSpace).head? ≠ some '#' := by
        intro hhead
        obtain ⟨cs, hcs⟩ := List.head?_eq_some_iff.1 hhead
        exact hno _ (by rw [hcs]; rfl)
      rw [if_neg hcomment, if_pos (by simp)]
      simp only [takeWhile_ne hdropped, dropWhile_ne hdropped, List.tail_cons, hkey, hval]
      rfl
  · have hnone : assignment line = none := by
      rw [assignment, if_neg hmem]
      split <;> rfl
    have hdropped : '=' ∉ line.dropWhile isSpace := fun h => hmem ((List.dropWhile_sublist _).mem h)
    rw [hnone]
    split
    · rfl
    · rfl
    · rfl
    · rw [if_neg hdropped]
      rfl

/-! ### The pieces of a line -/

private theorem trim_newline (text : List Char) : trim (text ++ ['\n']) = trim text := by
  unfold trim
  rw [List.dropWhile_append]
  split
  · rename_i hempty
    rw [List.isEmpty_iff.1 hempty]
    rfl
  · rw [List.rdropWhile_concat_pos _ _ _ rfl]

/-- The newline at the end of a line says nothing. -/
private theorem assignment_newline (piece : List Char) : assignment (piece ++ ['\n']) = assignment piece := by
  by_cases hmem : '=' ∈ piece
  · obtain ⟨before, after, rfl, hbefore⟩ := List.eq_append_cons_of_mem hmem
    rw [List.append_assoc, List.cons_append, assignment_eq hbefore, assignment_eq hbefore, trim_newline]
  · have hmem' : '=' ∉ piece ++ ['\n'] := by simp [hmem]
    rw [assignment, assignment, if_neg hmem, if_neg hmem']
    split <;> split <;> rfl

/-- The loop of `parse_config` takes the pieces of the lines for lines. -/
private theorem parseLoop_eq (fuel : Nat) (config : ConfigContent D) {text : List Char} (hfuel : text.length ≤ fuel)
    (hnul : '\x00' ∉ text) :
    parseLoop strtod fuel config text =
      ((pieces 255 '\n' text).map assignment).foldl (assign strtod) config := by
  induction fuel generalizing config text with
  | zero =>
    obtain rfl : text = [] := List.length_eq_zero_iff.1 (by omega)
    rw [pieces_nil (by decide)]
    rfl
  | succ fuel ih =>
    by_cases htext : text = []
    · subst htext
      rw [pieces_nil (by decide)]
      rfl
    · have hloop : parseLoop strtod (fuel + 1) config text = parseLoop strtod fuel
          (parseLine strtod config (readUpTo '\n' 255 text).1) (readUpTo '\n' 255 text).2 := by
        cases text with
        | nil => exact absurd rfl htext
        | cons c cs => rfl
      have happend := readUpTo_append '\n' 255 text
      obtain ⟨hline, hread⟩ := readUpTo_pieces '\n' (show 0 < 255 by decide) htext
      have hnulLine : '\x00' ∉ (readUpTo '\n' 255 text).1 := fun h => hnul (by
        rw [← happend]
        exact List.mem_append_left _ h)
      have hnulRest : '\x00' ∉ (readUpTo '\n' 255 text).2 := fun h => hnul (by
        rw [← happend]
        exact List.mem_append_right _ h)
      have hless : (readUpTo '\n' 255 text).2.length ≤ fuel := by
        have hlength := congrArg List.length happend
        have hpos := List.length_pos_iff.2 hline
        rw [List.length_append] at hlength
        omega
      rw [hloop, ih _ hless hnulRest, parseLine_eq strtod hnulLine]
      rcases hread with ⟨hnewline, hpieces⟩ | ⟨piece, hpiece, hpieces⟩
      · rw [hpieces, hnewline]
        rfl
      · have hsame : assignment (readUpTo '\n' 255 text).1 = assignment piece := by
          rcases hpiece with h | h
          · rw [h]
          · rw [h, assignment_newline]
        rw [hpieces, hsame, List.map_cons, List.foldl_cons]

/-! ### The last line about a setting -/

private theorem mem_all (s : Setting) : s ∈ Setting.all := by
  cases s <;> simp [Setting.all]

/-- No two settings have one name. -/
private theorem names_nodup : (Setting.all.map Setting.name).Nodup := by
  simp [Setting.all, Setting.name]

private theorem ofName_name (s : Setting) : Setting.ofName s.name.toList = some s := by
  cases h : Setting.ofName s.name.toList with
  | none =>
    have := List.find?_eq_none.1 h s (mem_all s)
    simp at this
  | some s' =>
    have hname : s'.name.toList = s.name.toList := by simpa using List.find?_some h
    exact congrArg some (List.inj_on_of_nodup_map names_nodup (mem_all s') (mem_all s) (String.toList_injective hname))

private theorem ofName_eq_some {key : List Char} {s : Setting} : Setting.ofName key = some s ↔ key = s.name.toList := by
  constructor
  · intro h
    have := List.find?_some h
    exact (beq_iff_eq.1 this).symm
  · rintro rfl
    exact ofName_name s

/-- A line sets the setting that it gives a value to, and no other. -/
private theorem assign_eq (config : ConfigContent D) (line : List Char) (s : Setting) :
    assign strtod config (assignment line) s =
      match s.valueIn line with
      | some val => s.conversion.convert strtod val
      | none => config s := by
  unfold Setting.valueIn
  cases assignment line with
  | none => rfl
  | some a =>
    obtain ⟨key, val⟩ := a
    simp only [assign, Option.bind_some]
    by_cases hkey : key = s.name.toList
    · rw [ofName_eq_some.2 hkey, if_pos hkey]
      exact Function.update_self _ _ _
    · rw [if_neg hkey]
      cases hname : Setting.ofName key with
      | none => rfl
      | some s' =>
        refine Function.update_of_ne ?_ _ _
        rintro rfl
        exact hkey (ofName_eq_some.1 hname)

/-- Line by line, the last one about a setting decides. -/
private theorem foldl_assign (lines : List (List Char)) :
    (lines.map assignment).foldl (assign strtod) (initConfigContent strtod) = meaning strtod lines := by
  funext s
  induction lines using List.reverseRecOn with
  | nil => rfl
  | append_singleton lines line ih =>
    rw [List.map_append, List.foldl_append, List.map_singleton, List.foldl_cons, List.foldl_nil, assign_eq, ih]
    unfold meaning
    rw [List.filterMap_append, List.filterMap_cons, List.filterMap_nil]
    cases s.valueIn line with
    | none => rw [List.append_nil]
    | some val => rw [List.getLast?_concat]

/-- What `parse_config` finds in a file: the meaning of the pieces of its lines. -/
private theorem parseConfig_eq {text : List Char} (hnul : '\x00' ∉ text) :
    parseConfig strtod (some text) = (.success, meaning strtod ((linesOf text).flatMap (cut 255))) := by
  rw [parseConfig, parseLoop_eq strtod _ _ (Nat.le_refl _) hnul, foldl_assign]
  rfl

/-- Lines that are not cut mean what they meant. -/
private theorem meaning_cut {lines : List (List Char)} (hshort : ∀ line ∈ lines, line.length ≤ 255) :
    meaning strtod (lines.flatMap (cut 255)) = meaning strtod lines := by
  funext s
  have hvalues : (lines.flatMap (cut 255)).filterMap s.valueIn = lines.filterMap s.valueIn := by
    induction lines with
    | nil => rfl
    | cons line lines ih =>
      rw [List.forall_mem_cons] at hshort
      rw [List.flatMap_cons, List.filterMap_append, ih hshort.2]
      by_cases hempty : line = []
      · subst hempty
        rw [cut_nil (by decide)]
        rfl
      · rw [cut_short (by decide) hempty hshort.1, ← List.filterMap_append, List.singleton_append]
  rw [meaning, meaning, hvalues]

/-! ### What the game reads -/

/-- `parse_set_life_unit`, `parse_set_start_life_units`, `parse_set_commands_delay`, `parse_respawn_resources` and
`parse_set_respawn_context`, less the densities. -/
def ConfigContent.gameConfig (c : ConfigContent D) (sockServer : Fd) (sector : Int → Int → Int) : Config where
  lifeUnit := c .lifeUnitToTime
  startLifeUnits := c .initialLifeUnits
  delay
    | .avance => c .delayAvance
    | .droite => c .delayDroite
    | .gauche => c .delayGauche
    | .voir => c .delayVoir
    | .inventaire => c .delayInventaire
    | .prend => c .delayPrend
    | .pose => c .delayPose
    | .expulse => c .delayExpulse
    | .broadcast => c .delayBroadcast
    | .incantation => c .delayIncantation
    | .fork => c .delayFork
    | .connectNbr => c .delayConnectNbr
  respawnResources := c .spawnMoreResources
  spawnPeriod := c .spawnMoreResourcesTime
  sockServer := sockServer
  sector := sector

/-- Without a word about the game in the configuration file, the game runs as shipped. -/
theorem gameConfig_default {text : List Char} (hnul : '\x00' ∉ text)
    (hnone : ∀ line ∈ pieces 255 '\n' text, assignment line = none) :
    (parseConfig strtod (some text)).2.gameConfig 3 octant = shippedConfig := by
  have hvalues : ∀ s : Setting, ((linesOf text).flatMap (cut 255)).filterMap s.valueIn = [] := fun s =>
    List.filterMap_eq_nil_iff.2 fun line hline => by rw [Setting.valueIn, hnone line hline]; rfl
  have hdefault : (parseConfig strtod (some text)).2 = initConfigContent strtod := by
    rw [parseConfig_eq strtod hnul]
    funext s
    change meaning strtod _ s = _
    rw [meaning, hvalues s]
    rfl
  have hdelay : ∀ c, ((initConfigContent strtod).gameConfig 3 octant).delay c = shippedDelay c := by
    intro c
    cases c <;> rfl
  rw [hdefault]
  unfold shippedConfig
  rw [← show ((initConfigContent strtod).gameConfig 3 octant).delay = shippedDelay from funext hdelay]
  rfl

/-! ### Files -/

/-- `parse_config` yields what the lines of the file mean. -/
def ParsesLines (text : List Char) : Prop := parseConfig strtod (some text) = (.success, meaning strtod (linesOf text))

theorem ParsesLines.content {text : List Char} (h : ParsesLines strtod text) :
    (parseConfig strtod (some text)).2 = meaning strtod (linesOf text) := by
  rw [ParsesLines] at h
  rw [h]

/-- Cutting the lines of the file after every 255 bytes does not change what they mean. -/
def CutsHarmless (text : List Char) : Prop :=
  meaning strtod ((linesOf text).flatMap (cut 255)) = meaning strtod (linesOf text)

/-- `parse_config` yields what the lines of a file mean if and only if cutting them after every 255 bytes is harmless,
as it is if no line is longer. -/
theorem parses_lines_iff {text : List Char} (hnul : '\x00' ∉ text) :
    (ParsesLines strtod text ↔ CutsHarmless strtod text) ∧
      ((∀ line ∈ linesOf text, line.length ≤ 255) → CutsHarmless strtod text) := by
  refine ⟨?_, meaning_cut strtod⟩
  rw [ParsesLines, CutsHarmless, parseConfig_eq strtod hnul, Prod.mk.injEq]
  exact and_iff_right rfl

/-- `strtod`, of a plain decimal fraction. -/
def decimal (text : String) : Rat :=
  let whole := text.toList.takeWhile (· != '.')
  let fraction := (text.toList.dropWhile (· != '.')).tail
  (strtol (String.ofList (whole ++ fraction)) : Rat) / 10 ^ fraction.length

/-- A comment, a line given up for a later one, and a line without a name that counts. -/
def plainFile : List Char := "# slow\r\n DELAY_AVANCE = 9 \r\nDELAY_AVANCE=5\n\nDENSITY_SIBUR= 0.5\nTEAMS=2".toList

theorem parses_lines_iff_plain : ParsesLines decimal plainFile :=
  have hnul : '\x00' ∉ plainFile := by decide +kernel
  (parses_lines_iff decimal hnul).1.2 ((parses_lines_iff decimal hnul).2 (by decide +kernel))

/-- A comment that is longer than the buffer. -/
def longComment : List Char := '#' :: List.replicate 254 'x' ++ "DELAY_AVANCE=9\n".toList

/-- The rest of the comment is taken for a line. -/
theorem comment_tail_obeyed : '\x00' ∉ longComment ∧ ¬ ParsesLines decimal longComment := by
  refine ⟨by decide +kernel, fun h => ?_⟩
  have hparsed : ((parseConfig decimal (some longComment)).2.gameConfig 3 octant).delay .avance = 9 := by decide +kernel
  have hmeant : ((meaning decimal (linesOf longComment)).gameConfig 3 octant).delay .avance = 7 := by decide +kernel
  rw [h.content, hmeant] at hparsed
  exact absurd hparsed (by decide)

end Zappy
