import Accumulator.CommandLine.Arguments
import Accumulator.Proofs.Text.Replacement

/-! # The arguments of a run

The arguments of `run` are items one after the other: an option with its value, or a path. An
argument list is cut into items from the left in one way only, up to its end or to an argument with
which no item starts. The reading fails there, or before that at a second path.
-/

namespace Accumulator.CommandLine

set_option autoImplicit false

/-- An option with its value, or a path. -/
inductive Item where
  | verbose (short : Bool)
  | stepLimit (value : ByteArray) (limit : UInt64)
      (hValue : Decimal.uint64? (Text.lossy value) = some limit)
  | path (name : ByteArray) (hName : isOption (Text.lossy name) = false)

namespace Item

def arguments : Item → List ByteArray
  | verbose true => ["-v".toByteArray]
  | verbose false => ["--verbose".toByteArray]
  | stepLimit value _ _ => ["--max-steps".toByteArray, value]
  | path name _ => [name]

def setsVerbose : Item → Bool
  | verbose _ => true
  | stepLimit _ _ _ | path _ _ => false

def limit? : Item → Option UInt64
  | stepLimit _ limit _ => some limit
  | verbose _ | path _ _ => none

def path? : Item → Option ByteArray
  | path name _ => some name
  | verbose _ | stepLimit _ _ _ => none

end Item

/-- What has been read when these items have been read too. -/
def RunArguments.gather (seen : RunArguments) (items : List Item) : RunArguments where
  path := (items.filterMap Item.path?).getLast?.or seen.path
  config :=
    { verbose := seen.config.verbose || items.any Item.setsVerbose
      stepLimit := (items.filterMap Item.limit?).getLast?.or seen.config.stepLimit }

theorem RunArguments.gather_nil (seen : RunArguments) : seen.gather [] = seen := by
  simp [gather]

theorem getLast?_filterMap_cons {α β : Type} (f : α → Option β) (item : α) (items : List α)
    (first : Option β) :
    ((item :: items).filterMap f).getLast?.or first =
      (items.filterMap f).getLast?.or (([item].filterMap f).getLast?.or first) := by
  rw [← List.singleton_append, List.filterMap_append, List.getLast?_append, Option.or_assoc]

theorem RunArguments.gather_cons (seen : RunArguments) (item : Item) (items : List Item) :
    seen.gather (item :: items) = (seen.gather [item]).gather items := by
  simp only [gather, getLast?_filterMap_cons _ item items, List.any_cons, List.any_nil,
    Bool.or_false, Bool.or_assoc]

/-! ## Reading an item -/

theorem plain_of_isOption_eq_false {text : String} (h : isOption text = false) :
    isHelp text = false ∧ isVerbose text = false ∧ text ≠ "--max-steps" := by
  have hOther : ∀ option : String, isOption option = true → text ≠ option := by
    rintro option hOption rfl
    rw [h] at hOption
    cases hOption
  refine ⟨?_, ?_, hOther _ (by decide)⟩
  · simp [isHelp, hOther "--help" (by decide), hOther "-h" (by decide)]
  · simp [isVerbose, hOther "--verbose" (by decide), hOther "-v" (by decide)]

theorem parseRun_path {name : ByteArray} (hName : isOption (Text.lossy name) = false)
    (seen : RunArguments) (rest : List ByteArray) :
    parseRun seen (name :: rest) =
      if seen.path.isSome then .error .secondPath
      else parseRun { seen with path := some name } rest := by
  obtain ⟨hHelp, hVerbose, hSteps⟩ := plain_of_isOption_eq_false hName
  rw [parseRun.eq_def]
  simp [hHelp, hVerbose, hSteps, hName]

theorem parseRun_item {seen : RunArguments} {item : Item}
    (h : item.path? = none ∨ seen.path = none) (rest : List ByteArray) :
    parseRun seen (item.arguments ++ rest) = parseRun (seen.gather [item]) rest := by
  cases item with
  | verbose short =>
    cases short <;>
      simp [parseRun.eq_def seen, Item.arguments, Text.lossy_toByteArray, isHelp, isVerbose,
        RunArguments.gather, Item.path?, Item.limit?, Item.setsVerbose]
  | stepLimit value limit hValue =>
    simp [parseRun, Item.arguments, Text.lossy_toByteArray, isHelp, isVerbose, hValue,
      RunArguments.gather, Item.path?, Item.limit?, Item.setsVerbose]
  | path name hName =>
    have hSeen : seen.path = none := by simpa [Item.path?] using h
    simp [parseRun_path hName, hSeen, Item.arguments, RunArguments.gather, Item.path?, Item.limit?,
      Item.setsVerbose]

theorem parseRun_second_path {seen : RunArguments} {item : Item}
    (h : item.path?.isSome = true) (hSeen : seen.path.isSome = true) (rest : List ByteArray) :
    parseRun seen (item.arguments ++ rest) = .error .secondPath := by
  cases item with
  | verbose | stepLimit => cases h
  | path name hName => exact (parseRun_path hName seen rest).trans (if_pos hSeen)

/-- Items are read one after the other up to a second path, behind what has been read before. -/
theorem parseRun_items (seen : RunArguments) (items : List Item) (rest : List ByteArray) :
    parseRun seen (items.flatMap Item.arguments ++ rest) =
      if (seen.path.toList ++ items.filterMap Item.path?).length ≤ 1 then
        parseRun (seen.gather items) rest
      else .error .secondPath := by
  induction items generalizing seen with
  | nil =>
    rw [RunArguments.gather_nil]
    cases hSeen : seen.path <;> rfl
  | cons item items ih =>
    rw [List.flatMap_cons, List.append_assoc, RunArguments.gather_cons]
    by_cases hRoom : item.path? = none ∨ seen.path = none
    · have hPaths : (seen.gather [item]).path.toList ++ items.filterMap Item.path? =
          seen.path.toList ++ (item :: items).filterMap Item.path? := by
        rcases hRoom with hItem | hSeen
        · simp [RunArguments.gather, hItem]
        · cases hItem : item.path? <;> simp [RunArguments.gather, hItem, hSeen]
      rw [parseRun_item hRoom, ih, hPaths]
    · rw [not_or, ← ne_eq, ← ne_eq, Option.ne_none_iff_isSome, Option.ne_none_iff_isSome] at hRoom
      obtain ⟨name, hItem⟩ := Option.isSome_iff_exists.mp hRoom.1
      obtain ⟨first, hSeen⟩ := Option.isSome_iff_exists.mp hRoom.2
      have hCrowded : ¬ (seen.path.toList ++ (item :: items).filterMap Item.path?).length ≤ 1 := by
        simp [hItem, hSeen]
      rw [parseRun_second_path hRoom.1 hRoom.2, if_neg hCrowded]

/-! ## Cutting into items -/

/-- No item starts these arguments, for this reason. -/
inductive Stops : List ByteArray → UsageFault → Prop
  | help {argument : ByteArray} (rest : List ByteArray)
      (hHelp : isHelp (Text.lossy argument) = true) : Stops (argument :: rest) .helpWanted
  | missingCount : Stops ["--max-steps".toByteArray] .missingStepCount
  | invalidCount {value : ByteArray} (rest : List ByteArray)
      (hValue : Decimal.uint64? (Text.lossy value) = none) :
      Stops ("--max-steps".toByteArray :: value :: rest) (.invalidStepCount (Text.lossy value))
  | unknown {argument : ByteArray} (rest : List ByteArray)
      (hOption : isOption (Text.lossy argument) = true)
      (hHelp : isHelp (Text.lossy argument) = false)
      (hVerbose : isVerbose (Text.lossy argument) = false)
      (hSteps : Text.lossy argument ≠ "--max-steps") :
      Stops (argument :: rest) (.unknownOption (Text.lossy argument))

theorem parseRun_of_stops {arguments : List ByteArray} {fault : UsageFault}
    (h : Stops arguments fault) (seen : RunArguments) :
    parseRun seen arguments = .error fault := by
  cases h with
  | help rest hHelp =>
    rw [parseRun.eq_def]
    simp [hHelp]
  | missingCount => simp [parseRun, Text.lossy_toByteArray, isHelp, isVerbose]
  | invalidCount rest hValue => simp [parseRun, Text.lossy_toByteArray, isHelp, isVerbose, hValue]
  | unknown rest hOption hHelp hVerbose hSteps =>
    rw [parseRun.eq_def]
    simp [hOption, hHelp, hVerbose, hSteps]

theorem exists_item_or_stops (argument : ByteArray) (rest : List ByteArray) :
    (∃ item back, argument :: rest = Item.arguments item ++ back ∧ back.length ≤ rest.length) ∨
      ∃ fault, Stops (argument :: rest) fault := by
  cases hHelp : isHelp (Text.lossy argument) with
  | true => exact .inr ⟨_, .help rest hHelp⟩
  | false =>
    cases hVerbose : isVerbose (Text.lossy argument) with
    | true =>
      rw [isVerbose, Bool.or_eq_true, beq_iff_eq, beq_iff_eq] at hVerbose
      rcases hVerbose with hLong | hShort
      · rw [(Text.lossy_eq_iff (by decide)).mp hLong]
        exact .inl ⟨.verbose false, rest, rfl, Nat.le_refl _⟩
      · rw [(Text.lossy_eq_iff (by decide)).mp hShort]
        exact .inl ⟨.verbose true, rest, rfl, Nat.le_refl _⟩
    | false =>
      by_cases hSteps : Text.lossy argument = "--max-steps"
      · rw [(Text.lossy_eq_iff (by decide)).mp hSteps]
        cases rest with
        | nil => exact .inr ⟨_, .missingCount⟩
        | cons value rest =>
          cases hValue : Decimal.uint64? (Text.lossy value) with
          | none => exact .inr ⟨_, .invalidCount rest hValue⟩
          | some limit => exact .inl ⟨.stepLimit value limit hValue, rest, rfl, Nat.le_succ _⟩
      · cases hOption : isOption (Text.lossy argument) with
        | true => exact .inr ⟨_, .unknown rest hOption hHelp hVerbose hSteps⟩
        | false => exact .inl ⟨.path argument hOption, rest, rfl, Nat.le_refl _⟩

theorem exists_items (arguments : List ByteArray) :
    ∃ (items : List Item) (rest : List ByteArray),
      arguments = items.flatMap Item.arguments ++ rest ∧
        (rest = [] ∨ ∃ fault, Stops rest fault) := by
  induction hLength : arguments.length using Nat.strongRecOn generalizing arguments with
  | ind length ih =>
    cases arguments with
    | nil => exact ⟨[], [], rfl, .inl rfl⟩
    | cons argument rest =>
      rcases exists_item_or_stops argument rest with ⟨item, back, hItem, hBack⟩ | hStops
      · have hShorter : back.length < length := by
          rw [← hLength, List.length_cons]
          omega
        obtain ⟨items, last, rfl, hLast⟩ := ih _ hShorter back rfl
        refine ⟨item :: items, last, ?_, hLast⟩
        rw [hItem, List.flatMap_cons, List.append_assoc]
      · exact ⟨[], argument :: rest, rfl, .inr hStops⟩

theorem ne_path_of_isOption {flag : String} {name : ByteArray} (rest back : List ByteArray)
    (hFlag : isOption flag = true) (hName : isOption (Text.lossy name) = false) :
    flag.toByteArray :: rest ≠ name :: back := by
  intro h
  rw [← (List.cons.inj h).1, Text.lossy_toByteArray, hFlag] at hName
  cases hName

theorem Item.arguments_append_inj {item other : Item} {rest back : List ByteArray}
    (h : item.arguments ++ rest = other.arguments ++ back) : item = other ∧ rest = back := by
  cases item with
  | verbose short =>
    cases other with
    | verbose other => cases short <;> cases other <;> simp_all [arguments, String.toByteArray_inj]
    | stepLimit => cases short <;> simp [arguments, String.toByteArray_inj] at h
    | path name hName =>
      cases short <;> exact absurd h (ne_path_of_isOption _ _ (by decide) hName)
  | stepLimit value limit hValue =>
    cases other with
    | verbose short => cases short <;> simp [arguments, String.toByteArray_inj] at h
    | stepLimit other _ hOther =>
      obtain ⟨rfl, rfl⟩ : value = other ∧ rest = back := by simpa [arguments] using h
      cases hValue.symm.trans hOther
      exact ⟨rfl, rfl⟩
    | path name hName => exact absurd h (ne_path_of_isOption _ _ (by decide) hName)
  | path name hName =>
    cases other with
    | verbose short =>
      cases short <;> exact absurd h.symm (ne_path_of_isOption _ _ (by decide) hName)
    | stepLimit => exact absurd h.symm (ne_path_of_isOption _ _ (by decide) hName)
    | path other hOther => simpa [arguments] using h

theorem Item.arguments_ne_nil (item : Item) : item.arguments ≠ [] := by
  cases item with
  | verbose short => cases short <;> exact List.cons_ne_nil _ _
  | stepLimit | path => exact List.cons_ne_nil _ _

theorem Item.flatMap_arguments_inj {items others : List Item}
    (h : items.flatMap arguments = others.flatMap arguments) : items = others := by
  induction items generalizing others with
  | nil =>
    cases others with
    | nil => rfl
    | cons other others =>
      exact absurd (List.append_eq_nil_iff.mp h.symm).1 other.arguments_ne_nil
  | cons item items ih =>
    cases others with
    | nil => exact absurd (List.append_eq_nil_iff.mp h).1 item.arguments_ne_nil
    | cons other others =>
      obtain ⟨rfl, hRest⟩ := arguments_append_inj h
      rw [ih hRest]

/-! ## The whole list -/

/-- The settings that items make. Of several step limits the last one counts. -/
def settings (items : List Item) : Config where
  verbose := items.any Item.setsVerbose
  stepLimit := (items.filterMap Item.limit?).getLast?

theorem parseRun_flatMap (items : List Item) :
    parseRun {} (items.flatMap Item.arguments) =
      match items.filterMap Item.path? with
      | [] => .error .missingPath
      | [name] => .ok (.run name (settings items))
      | _ :: _ :: _ => .error .secondPath := by
  have hRead := parseRun_items {} items []
  rw [List.append_nil] at hRead
  rw [hRead]
  cases hPaths : items.filterMap Item.path? with
  | nil => simp [parseRun, RunArguments.gather, hPaths]
  | cons name names =>
    cases names with
    | nil => simp [parseRun, RunArguments.gather, settings, hPaths]
    | cons other names => exact if_neg (by simp)

theorem parseRun_eq_ok_iff {arguments : List ByteArray} {request : Request} :
    parseRun {} arguments = .ok request ↔
      ∃ (items : List Item) (name : ByteArray), items.flatMap Item.arguments = arguments ∧
        items.filterMap Item.path? = [name] ∧ request = .run name (settings items) := by
  constructor
  · intro h
    obtain ⟨items, rest, rfl, rfl | ⟨fault, hStops⟩⟩ := exists_items arguments
    · rw [List.append_nil, parseRun_flatMap] at h
      split at h
      · cases h
      · rename_i name hPaths
        cases h
        exact ⟨items, name, (List.append_nil _).symm, hPaths, rfl⟩
      · cases h
    · rw [parseRun_items, parseRun_of_stops hStops] at h
      split at h <;> cases h
  · rintro ⟨items, name, rfl, hPaths, rfl⟩
    rw [parseRun_flatMap, hPaths]

theorem parseRun_eq_helpWanted_iff {arguments : List ByteArray} :
    parseRun {} arguments = .error .helpWanted ↔
      ∃ (items : List Item) (argument : ByteArray) (rest : List ByteArray),
        arguments = items.flatMap Item.arguments ++ argument :: rest ∧
          (items.filterMap Item.path?).length ≤ 1 ∧ isHelp (Text.lossy argument) = true := by
  constructor
  · intro h
    obtain ⟨items, rest, rfl, rfl | ⟨fault, hStops⟩⟩ := exists_items arguments
    · rw [List.append_nil, parseRun_flatMap] at h
      split at h <;> cases h
    · rw [parseRun_items, parseRun_of_stops hStops] at h
      split at h
      · rename_i hRoom
        cases h
        cases hStops with
        | help rest hHelp => exact ⟨items, _, rest, rfl, hRoom, hHelp⟩
      · cases h
  · rintro ⟨items, argument, rest, rfl, hPaths, hHelp⟩
    rw [parseRun_items, parseRun_of_stops (.help rest hHelp)]
    exact if_pos hPaths

theorem parseRun_of_perm {items others : List Item} (hPerm : items.Perm others)
    (hLimits : items.filterMap Item.limit? = others.filterMap Item.limit?) :
    parseRun {} (items.flatMap Item.arguments) = parseRun {} (others.flatMap Item.arguments) := by
  have hSettings : settings items = settings others := by
    rw [settings, settings, hPerm.any_eq, hLimits]
  have hPaths := hPerm.filterMap Item.path?
  rw [parseRun_flatMap, parseRun_flatMap, hSettings]
  generalize items.filterMap Item.path? = names at hPaths ⊢
  generalize others.filterMap Item.path? = moved at hPaths ⊢
  rcases names with _ | ⟨name, _ | ⟨second, names⟩⟩
  · rw [List.nil_perm.mp hPaths]
  · rw [List.singleton_perm.mp hPaths]
  · have hLength := hPaths.length_eq
    rcases moved with _ | ⟨_, _ | _⟩
    · cases hLength
    · cases hLength
    · rfl

/-- A list of arguments is accepted exactly if it consists of items, with a single path among them;
then the items make the settings. No list consists of items in two ways. Items may stand in any
order that keeps the step limits in theirs. -/
theorem parseRun_exact :
    (∀ (arguments : List ByteArray) (request : Request), parseRun {} arguments = .ok request ↔
      ∃ (items : List Item) (name : ByteArray), items.flatMap Item.arguments = arguments ∧
        items.filterMap Item.path? = [name] ∧
        request = .run name
          ⟨items.any Item.setsVerbose, (items.filterMap Item.limit?).getLast?⟩) ∧
    (∀ items others : List Item,
      items.flatMap Item.arguments = others.flatMap Item.arguments → items = others) ∧
    ∀ items others : List Item, items.Perm others →
      items.filterMap Item.limit? = others.filterMap Item.limit? →
      parseRun {} (items.flatMap Item.arguments) = parseRun {} (others.flatMap Item.arguments) :=
  ⟨fun _ _ => parseRun_eq_ok_iff, fun _ _ => Item.flatMap_arguments_inj,
    fun _ _ => parseRun_of_perm⟩

def sevenSteps : Item := .stepLimit "7".toByteArray 7 (by decide)

/-- Nine steps, written with a plus sign and a leading zero. -/
def nineSteps : Item := .stepLimit "+09".toByteArray 9 (by decide)

def programPath : Item := .path "p.aal".toByteArray (by decide)

/-- The later of two limits counts, and the path may stand behind it or in front of both. -/
theorem parseRun_exact_laterLimit :
    parseRun {} (["--max-steps", "7", "-v", "--max-steps", "+09", "p.aal"].map String.toByteArray) =
        .ok (.run "p.aal".toByteArray ⟨true, some 9⟩) ∧
      parseRun {}
          (["p.aal", "--max-steps", "7", "-v", "--max-steps", "+09"].map String.toByteArray) =
        .ok (.run "p.aal".toByteArray ⟨true, some 9⟩) := by
  obtain ⟨hAccepted, _, hOrder⟩ := parseRun_exact
  have hFirst : parseRun {}
      (([sevenSteps, .verbose true, nineSteps] ++ [programPath]).flatMap Item.arguments) =
        .ok (.run "p.aal".toByteArray ⟨true, some 9⟩) :=
    (hAccepted _ _).mpr ⟨_, _, rfl, rfl, rfl⟩
  have hMoved : ([sevenSteps, .verbose true, nineSteps] ++ [programPath]).Perm
      (programPath :: [sevenSteps, .verbose true, nineSteps]) :=
    List.perm_append_singleton _ _
  exact ⟨hFirst, (hOrder _ _ hMoved rfl).symm.trans hFirst⟩

end Accumulator.CommandLine
