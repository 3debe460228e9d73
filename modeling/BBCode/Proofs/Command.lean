import BBCode.Command

/-!
# BBCode.Proofs.Command

What the words of a command line come to, wherever the options stand among them. Words are read as
arguments, where an option with a path is one argument of two words. The first argument that settles
everything alone does so; without one, the command is that of what the arguments ask for together,
and of them all only the order of the paths and the order of the places count.

Main statements: `words_ofWords` and `ofWords_words`, words and arguments make up each other;
`read_eq`, what the reading comes to, and `parse_arguments`, which says this of a whole command line.
-/

namespace BBCode

/-- What some words of a command line stand for. -/
inductive Argument where
  | tags
  | standalone
  | writeConfig
  | config (path : Path)
  /-- The option for a path, as the last word. -/
  | configAlone
  | unknown (word : Text)
  | place (path : Path)
  deriving DecidableEq, Repr

namespace Argument

/-- What a word stands for that takes no other with it. -/
def ofWord (w : Text) : Argument :=
  if w = "--tags".toList then .tags
  else if w = "--standalone".toList then .standalone
  else if w = "--init-config".toList then .writeConfig
  else if "--".toList.isPrefixOf w then .unknown w
  else .place ⟨w⟩

/-- The arguments from left to right. The option for a path takes the next word with it, whatever
that looks like. -/
def ofWords : List Text → List Argument
  | [] => []
  | w :: ws =>
    if w = "--config".toList then
      match ws with
      | [] => [.configAlone]
      | v :: vs => .config ⟨v⟩ :: ofWords vs
    else ofWord w :: ofWords ws

def words : Argument → List Text
  | tags => ["--tags".toList]
  | standalone => ["--standalone".toList]
  | writeConfig => ["--init-config".toList]
  | config p => ["--config".toList, p.text]
  | configAlone => ["--config".toList]
  | unknown w => [w]
  | place p => [p.text]

/-- What is wrong with an argument. -/
def fault? : Argument → Option UsageError
  | configAlone => some .missingConfigPath
  | unknown w => some (.unknownOption w)
  | _ => none

/-- What the reading comes to at an argument that ends it. -/
def verdict? : Argument → Option (Except UsageError Command)
  | tags => some (.ok .tags)
  | a => a.fault?.map .error

def config? : Argument → Option Path
  | config p => some p
  | _ => none

def place? : Argument → Option Path
  | place p => some p
  | _ => none

variable {us us' : List Argument} {u : Argument} {w v : Text} {ws vs : List Text}

theorem ofWords_config (v : Text) (vs : List Text) :
    ofWords ("--config".toList :: v :: vs) = .config ⟨v⟩ :: ofWords vs := by
  rw [ofWords, if_pos rfl]

theorem ofWords_cons (h : w ≠ "--config".toList) (ws : List Text) :
    ofWords (w :: ws) = ofWord w :: ofWords ws := by
  cases ws with
  | nil => simp only [ofWords, if_neg h]
  | cons _ _ => rw [ofWords, if_neg h]

theorem words_ofWord (w : Text) : (ofWord w).words = [w] := by
  unfold ofWord
  split
  · rename_i h
    exact congrArg ([·]) h.symm
  · split
    · rename_i h
      exact congrArg ([·]) h.symm
    · split
      · rename_i h
        exact congrArg ([·]) h.symm
      · split <;> rfl

/-- The arguments hold all words of a command line, in their order. -/
theorem words_ofWords (ws : List Text) : (ofWords ws).flatMap words = ws := by
  fun_induction ofWords ws with
  | case1 => rfl
  | case2 => rfl
  | case3 v vs ih => rw [List.flatMap_cons, words, ih, List.cons_append, List.singleton_append]
  | case4 w ws _ ih => rw [List.flatMap_cons, words_ofWord, ih, List.singleton_append]

/-- An argument that a command line can hold anywhere. -/
def Movable (u : Argument) : Prop := u ≠ .configAlone ∧ ofWords u.words = [u]

theorem movable_of_mem (hu : u ∈ ofWords ws) (h : u ≠ .configAlone) : u.Movable := by
  refine ⟨h, ?_⟩
  fun_induction ofWords ws with
  | case1 => cases hu
  | case2 => exact absurd (List.mem_singleton.1 hu) h
  | case3 v vs ih =>
    rcases List.mem_cons.1 hu with rfl | hu
    · exact ofWords_config v []
    · exact ih hu
  | case4 w ws hw ih =>
    rcases List.mem_cons.1 hu with rfl | hu
    · rw [words_ofWord, ofWords_cons hw, ofWords]
    · exact ih hu

/-- Such arguments in any order make up a command line. -/
theorem ofWords_words (h : ∀ u ∈ us, u.Movable) : ofWords (us.flatMap words) = us := by
  induction us with
  | nil => rw [List.flatMap_nil, ofWords]
  | cons u us ih =>
    obtain ⟨⟨halone, hu⟩, hus⟩ := List.forall_mem_cons.1 h
    have hword (w : Text) (hw : u.words = [w]) :
        ofWords ((u :: us).flatMap words) = u :: us := by
      rw [hw] at hu
      have hne : w ≠ "--config".toList := by
        rintro rfl
        exact halone (List.singleton_inj.1 hu).symm
      rw [ofWords_cons hne, ofWords, List.singleton_inj] at hu
      rw [List.flatMap_cons, hw, List.singleton_append, ofWords_cons hne, hu, ih hus]
    cases u with
    | config p =>
      rw [List.flatMap_cons, words, List.cons_append, List.singleton_append, ofWords_config, ih hus]
    | _ => exact hword _ rfl

theorem findSome?_verdict_of_notMem (h : .tags ∉ us) :
    us.findSome? verdict? = (us.findSome? fault?).map .error := by
  induction us with
  | nil => rfl
  | cons u us ih =>
    obtain ⟨hu, hus⟩ := List.ne_and_not_mem_of_not_mem_cons h
    have hv : u.verdict? = u.fault?.map .error := by
      cases u with
      | tags => exact absurd rfl hu
      | _ => rfl
    rw [List.findSome?_cons, List.findSome?_cons, hv, ih hus]
    cases u.fault? <;> rfl

theorem findSome?_verdict_of_mem (h : .tags ∈ us) (hf : ∀ u ∈ us, u.fault? = none) :
    us.findSome? verdict? = some (.ok .tags) := by
  obtain ⟨a, b, rfl, ha⟩ := List.eq_append_cons_of_mem h
  have hnone : a.findSome? fault? = none := by
    rw [List.findSome?_eq_none_iff]
    exact fun u hu => hf u (List.mem_append_left _ hu)
  rw [List.findSome?_append, findSome?_verdict_of_notMem ha, hnone]
  rfl

end Argument

open Argument

namespace Collected

/-- What is asked for with one more argument. -/
def add (c : Collected) : Argument → Collected
  | .standalone => { c with standalone := true }
  | .writeConfig => { c with writeConfig := true }
  | .config p => { c with config := some p }
  | .place p => { c with places := c.places ++ [p] }
  | _ => c

/-- What some arguments ask for together. -/
def ofArguments (us : List Argument) : Collected where
  config := (us.filterMap config?).getLast?
  standalone := decide (.standalone ∈ us)
  writeConfig := decide (.writeConfig ∈ us)
  places := us.filterMap place?

theorem foldl_add (us : List Argument) (c : Collected) :
    us.foldl add c = ⟨(us.filterMap config?).getLast?.or c.config,
      decide (.standalone ∈ us) || c.standalone, decide (.writeConfig ∈ us) || c.writeConfig,
      c.places ++ us.filterMap place?⟩ := by
  induction us generalizing c with
  | nil => simp
  | cons u us ih =>
    rw [List.foldl_cons, ih]
    cases u with
    | config p =>
      cases h : (us.filterMap config?).getLast? <;>
        simp [add, config?, place?, List.getLast?_cons, List.filterMap_cons, h]
    | _ => simp [add, config?, place?, List.filterMap_cons]

theorem foldl_add_none (us : List Argument) : us.foldl add {} = ofArguments us := by
  simp [foldl_add, ofArguments]

/-- Only the order of the paths and that of the places count. -/
theorem ofArguments_perm (h : us'.Perm us)
    (hconfig : us'.filterMap config? = us.filterMap config?)
    (hplace : us'.filterMap place? = us.filterMap place?) : ofArguments us' = ofArguments us := by
  simp only [ofArguments, hconfig, hplace, h.mem_iff]

/-- What is asked for together is accepted if there are places for it, and not too many. -/
theorem command_eq_ok (c : Collected) : (∃ r, c.command = .ok r) ↔
    if c.writeConfig then c.places = [] else c.places.length = 1 ∨ c.places.length = 2 := by
  obtain ⟨config, standalone, writeConfig, places⟩ := c
  cases writeConfig with
  | true => cases places <;> simp [command]
  | false =>
    match places with
    | [] | [_] | [_, _] | _ :: _ :: _ :: _ => simp [command]

end Collected

namespace Command

variable {us us' : List Argument} {u : Argument} {w : Text} {words words' : List Text}

/-- The option for a path takes the next word with it. -/
theorem read_config (c : Collected) (v : Text) (vs : List Text) :
    read c ("--config".toList :: v :: vs) = read (c.add (.config ⟨v⟩)) vs := by
  rw [read, if_neg (by decide), if_neg (by decide), if_neg (by decide), if_pos rfl]
  rfl

/-- Any other word is read alone. -/
theorem read_cons (c : Collected) (h : w ≠ "--config".toList) (ws : List Text) :
    read c (w :: ws) = (ofWord w).verdict?.getD (read (c.add (ofWord w)) ws) := by
  have hread : read c (w :: ws) = if w = "--tags".toList then .ok .tags
      else if w = "--standalone".toList then read { c with standalone := true } ws
      else if w = "--init-config".toList then read { c with writeConfig := true } ws
      else if "--".toList.isPrefixOf w then .error (.unknownOption w)
      else read { c with places := c.places ++ [⟨w⟩] } ws := by
    cases ws <;> simp only [read, if_neg h]
  rw [hread, ofWord]
  by_cases htags : w = "--tags".toList
  · rw [if_pos htags, if_pos htags]
    rfl
  rw [if_neg htags, if_neg htags]
  by_cases hstandalone : w = "--standalone".toList
  · rw [if_pos hstandalone, if_pos hstandalone]
    rfl
  rw [if_neg hstandalone, if_neg hstandalone]
  by_cases hwrite : w = "--init-config".toList
  · rw [if_pos hwrite, if_pos hwrite]
    rfl
  rw [if_neg hwrite, if_neg hwrite]
  by_cases hoption : "--".toList.isPrefixOf w
  · rw [if_pos hoption, if_pos hoption]
    rfl
  · rw [if_neg hoption, if_neg hoption]
    rfl

/-- The first argument that ends the reading settles what it comes to. Without one, all that the
arguments ask for does. -/
theorem read_eq (c : Collected) (words : List Text) :
    read c words = ((ofWords words).findSome? verdict?).getD
      ((ofWords words).foldl Collected.add c).command := by
  fun_induction ofWords words generalizing c with
  | case1 => exact read_nil c
  | case2 =>
    rw [read, if_neg (by decide), if_neg (by decide), if_neg (by decide), if_pos rfl]
    rfl
  | case3 v vs ih =>
    rw [read_config, ih]
    rfl
  | case4 w ws h ih =>
    rw [read_cons c h, ih, List.foldl_cons, List.findSome?_cons]
    cases (ofWord w).verdict? <;> rfl

theorem parse_eq (words : List Text) : parse words = ((ofWords words).findSome? verdict?).getD
    (Collected.ofArguments (ofWords words)).command := by
  rw [parse, read_eq, Collected.foldl_add_none]

theorem parse_of_tags (h : ofWords words = us ++ .tags :: us') (hf : ∀ u ∈ us, u.fault? = none) :
    parse words = .ok .tags := by
  have hfirst : (us ++ [Argument.tags]).findSome? verdict? = some (.ok .tags) := by
    refine findSome?_verdict_of_mem (by simp) fun u hu => ?_
    rcases List.mem_append.1 hu with hu | hu
    · exact hf u hu
    · rw [List.mem_singleton.1 hu]
      rfl
  rw [parse_eq, h, List.append_cons, List.findSome?_append, hfirst]
  rfl

/-- The first thing that is wrong settles what a command line comes to. -/
theorem parse_of_fault (h : ofWords words = us ++ u :: us') (htags : .tags ∉ us)
    (hu : u.fault? ≠ none) :
    ∃ e, (us ++ [u]).findSome? fault? = some e ∧ parse words = .error e := by
  have hfirst : .tags ∉ us ++ [u] := by
    rw [List.mem_append, List.mem_singleton, not_or]
    refine ⟨htags, ?_⟩
    rintro rfl
    exact hu rfl
  obtain ⟨e, he⟩ : ∃ e, (us ++ [u]).findSome? fault? = some e := by
    rw [← Option.isSome_iff_exists, List.findSome?_isSome_iff]
    exact ⟨u, by simp, Option.isSome_iff_ne_none.2 hu⟩
  refine ⟨e, he, ?_⟩
  rw [parse_eq, h, List.append_cons, List.findSome?_append,
    findSome?_verdict_of_notMem hfirst, he]
  rfl

theorem parse_of_plain (h : ∀ u ∈ ofWords words, u ≠ .tags ∧ u.fault? = none) :
    parse words = (Collected.ofArguments (ofWords words)).command := by
  have htags : .tags ∉ ofWords words := fun hmem => (h _ hmem).1 rfl
  have hfault : (ofWords words).findSome? fault? = none := by
    rw [List.findSome?_eq_none_iff]
    exact fun u hu => (h u hu).2
  rw [parse_eq, findSome?_verdict_of_notMem htags, hfault]
  rfl

/-- A command line comes to the catalog if that is asked for before anything is wrong, and to an error
if something is wrong before that. Else it comes to what its arguments ask for together; so the same
arguments in another order, which is a command line too, come to the same as long as the paths of
configurations are in one order and the places are. -/
theorem parse_arguments (words : List Text) :
    (∀ a b, ofWords words = a ++ .tags :: b → (∀ u ∈ a, u.fault? = none) →
      parse words = .ok .tags) ∧
    (∀ a u b, ofWords words = a ++ u :: b → .tags ∉ a → u.fault? ≠ none →
      ∃ e, (a ++ [u]).findSome? fault? = some e ∧ parse words = .error e) ∧
    ((∀ u ∈ ofWords words, u ≠ .tags ∧ u.fault? = none) →
      parse words = (Collected.ofArguments (ofWords words)).command ∧
      ((∃ r, parse words = .ok r) ↔
        if .writeConfig ∈ ofWords words then (ofWords words).filterMap place? = []
        else ((ofWords words).filterMap place?).length = 1 ∨
          ((ofWords words).filterMap place?).length = 2) ∧
      ∀ us, us.Perm (ofWords words) →
        us.filterMap config? = (ofWords words).filterMap config? →
        us.filterMap place? = (ofWords words).filterMap place? →
        (∃ words', ofWords words' = us) ∧
        ∀ words', ofWords words' = us → parse words' = parse words) := by
  refine ⟨fun a b hus hf => parse_of_tags hus hf, fun a u b hus ha hu => parse_of_fault hus ha hu,
    fun h => ⟨parse_of_plain h, ?_, fun us hperm hconfig hplace => ⟨?_, ?_⟩⟩⟩
  · rw [parse_of_plain h, Collected.command_eq_ok]
    simp [Collected.ofArguments]
  · refine ⟨us.flatMap Argument.words, ofWords_words fun u hu => ?_⟩
    have hu := hperm.mem_iff.1 hu
    refine movable_of_mem hu ?_
    rintro rfl
    cases (h _ hu).2
  · rintro words' rfl
    rw [parse_of_plain h, parse_of_plain fun u hu => h u (hperm.mem_iff.1 hu),
      Collected.ofArguments_perm hperm hconfig hplace]

/-- Options before, between and behind the places come to the same. -/
theorem parse_arguments_moved :
    parse ["--config".toList, "--tags".toList, "in".toList, "--standalone".toList] =
      .ok (.convert ⟨some ⟨"--tags".toList⟩, true, ⟨"in".toList⟩, none⟩) ∧
    parse ["--standalone".toList, "in".toList, "--config".toList, "--tags".toList] =
      .ok (.convert ⟨some ⟨"--tags".toList⟩, true, ⟨"in".toList⟩, none⟩) ∧
    parse ["in".toList, "--tags".toList, "--out".toList] = .ok .tags ∧
    parse ["in".toList, "--out".toList, "--tags".toList] =
      .error (.unknownOption "--out".toList) := by
  have hwords : ofWords ["--config".toList, "--tags".toList, "in".toList, "--standalone".toList] =
      [.config ⟨"--tags".toList⟩, .place ⟨"in".toList⟩, .standalone] := by decide
  have hmoved : ofWords ["--standalone".toList, "in".toList, "--config".toList, "--tags".toList] =
      [.standalone, .place ⟨"in".toList⟩, .config ⟨"--tags".toList⟩] := by decide
  obtain ⟨-, -, hplain⟩ := parse_arguments ["--config".toList, "--tags".toList, "in".toList,
    "--standalone".toList]
  rw [hwords] at hplain
  obtain ⟨hparse, -, hsame⟩ := hplain (by decide)
  obtain ⟨-, hsame⟩ := hsame [.standalone, .place ⟨"in".toList⟩, .config ⟨"--tags".toList⟩]
    (by decide) (by decide) (by decide)
  obtain ⟨htags, -, -⟩ := parse_arguments ["in".toList, "--tags".toList, "--out".toList]
  obtain ⟨-, hfault, -⟩ := parse_arguments ["in".toList, "--out".toList, "--tags".toList]
  obtain ⟨e, he, herror⟩ := hfault [.place ⟨"in".toList⟩] (.unknown "--out".toList) [.tags]
    (by decide) (by decide) (by decide)
  cases he
  exact ⟨hparse, (hsame _ hmoved).trans hparse,
    htags [.place ⟨"in".toList⟩] [.unknown "--out".toList] (by decide) (by decide), herror⟩

end Command

end BBCode
