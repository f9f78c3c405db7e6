import Mathlib
import Netlist.Proofs.Mirroring
import Netlist.Proofs.Resolvability

/-!
# The arrangement of models

A netlist is a list of blocks, one for each model, which are cut into texts between the
blocks. Reading succeeds exactly if every block can be read by itself and no two models
have one name (`exists_reads_iff`), and gives the module that each of the blocks yields.
So the order of the blocks and the cuts between them do not matter, except for the
numbers of wires (`readTexts_perm`).
-/

namespace Netlist.Blif

/-- The words of the records of one model, from the record that begins it to the first one
that ends it. -/
structure Block where
  /-- The arguments of the record that begins the model. -/
  header : List String
  body : List (List String)
  /-- The arguments of the record that ends the model. -/
  footer : List String
  isInner : ∀ row ∈ body, row.head? ≠ some ".end"

/-- The words of all records of the model, one row for each. -/
def Block.rows (block : Block) : List (List String) :=
  (".model" :: block.header) :: (block.body ++ [".end" :: block.footer])

/-- The name of the model, if it has one. -/
def Block.name (block : Block) : String :=
  block.header.headD ""

/-- The blocks fill the texts, each of them one text or a part of one. -/
inductive Arranges : List String → List Block → Prop
  | nil : Arranges [] []
  | cons {text : String} {texts : List String} {group blocks : List Block}
      (here : (records text).map Record.words = group.flatMap Block.rows)
      (rest : Arranges texts blocks) : Arranges (text :: texts) (group ++ blocks)

namespace Reader

variable {first last : Reader}

/-! ### The ends of a block -/

/-- The reader in the model that it has just begun. -/
def opened (reader : Reader) (line : Nat) (name : String) : Reader :=
  { reader with lastLine := line, cover := none, openSets := .empty,
                current := some (Module.empty name reader.design.domain) }

/-- The reader after the end of a model. -/
def ended (reader : Reader) (line : Nat) (module : Module) : Reader :=
  commit { reader with lastLine := line, cover := none } module

theorem allocator_ended (reader : Reader) (line : Nat) (module : Module) :
    (reader.ended line module).allocator = reader.allocator :=
  allocator_commit _ _

theorem take_keyword (line : Nat) {keyword : String} (args : List String)
    (isKeyword : keyword.toList.head? = some '.') :
    take ⟨line, keyword, args⟩ first =
      takeKeyword line keyword args { first with lastLine := line, cover := none } := by
  have begins : hasKeyword ⟨line, keyword, args⟩ = true := decide_eq_true isKeyword
  rw [take, if_pos begins]
  rfl

/-- Between models a new one begins, if it has one name, which is not taken. -/
theorem take_begin (closed : first.current = none) (line : Nat) (args : List String) :
    take ⟨line, ".model", args⟩ first =
      match args with
      | [name] =>
        if first.design.contains name then
          (.error (.parse line (.duplicateModel name)),
            { first with lastLine := line, cover := none })
        else (.ok ⟨⟩, first.opened line name)
      | _ => (.error (.parse line .modelName), { first with lastLine := line, cover := none }) := by
  obtain ⟨design, current, cover, lastLine, sets, openSets⟩ := first
  cases closed
  rw [take_keyword line _ (by decide)]
  rcases args with _ | ⟨name, _ | ⟨other, rest⟩⟩
  · rfl
  · change (if design.contains name then refuse line (.duplicateModel name) else set _ : Step PUnit)
      _ = _
    dsimp only
    split <;> rfl
  · rfl

/-- A model that begins has a name, which is new. -/
theorem header_of_take_begin (closed : first.current = none) {line : Nat} {args : List String}
    (taken : take ⟨line, ".model", args⟩ first = (.ok ⟨⟩, last)) :
    ∃ name, args = [name] ∧ first.design.contains name = false ∧ last = first.opened line name := by
  rw [take_begin closed] at taken
  split at taken
  · rename_i name
    split at taken
    · cases taken
    · rename_i isNew
      cases taken
      exact ⟨name, rfl, Bool.eq_false_iff.2 isNew, rfl⟩
  · cases taken

theorem take_end {module : Module} (isOpen : first.current = some module) (line : Nat)
    (args : List String) :
    take ⟨line, ".end", args⟩ first = (.ok ⟨⟩, first.ended line module) := by
  obtain ⟨design, current, cover, lastLine, sets, openSets⟩ := first
  cases isOpen
  rw [take_keyword line _ (by decide)]
  rfl

/-- Readers in models of one name that have just begun are alike. -/
theorem alike_opened {second : Reader} (domain : first.allocator.domain = second.allocator.domain)
    (line place : Nat) (name : String) :
    (first.opened line name).Alike (second.opened place name) := by
  refine ⟨domain, rfl, .some ?_⟩
  rw [show second.design.domain = first.design.domain from domain.symm]
  exact .empty name _

/-! ### Whole blocks -/

/-- The module joins those that were read before, under a new name. -/
structure Adds (first : Reader) (module : Module) (last : Reader) : Prop where
  extension : first.allocator.Extends last.allocator
  isNew : first.design.contains module.name = false
  modules : last.design.modules = first.design.modules ++ [module]
  closed : last.current = none

theorem adds_ended {middle : Reader} {name : String} {line : Nat}
    (isNew : first.design.contains name = false)
    (advances : (first.opened line name).Advances middle) {module : Module}
    (isOpen : middle.current = some module) (place : Nat) :
    module.name = name ∧ first.Adds module (middle.ended place module) := by
  have named := advances.name
  rw [isOpen] at named
  obtain rfl : module.name = name := Option.some.inj named
  have stillNew : middle.design.contains module.name = false := by
    rw [← isNew, Design.contains, advances.modules]
    rfl
  refine ⟨rfl, ?_, isNew, ?_, rfl⟩
  · rw [allocator_ended]
    exact advances.extension
  · exact (Design.modules_insert stillNew).trans (congrArg (· ++ [module]) advances.modules)

/-- The records of a block begin with the header and end with the footer. -/
theorem exists_of_map_words {block : Block} {all : List Record}
    (words : all.map Record.words = block.rows) :
    ∃ line inner place, all =
        ⟨line, ".model", block.header⟩ :: (inner ++ [⟨place, ".end", block.footer⟩]) ∧
      inner.map Record.words = block.body := by
  obtain ⟨⟨line, keyword, args⟩, rest, rfl, begins, restWords⟩ := List.map_eq_cons_iff.1 words
  obtain ⟨inner, ending, rfl, innerWords, endingWords⟩ := List.map_eq_append_iff.1 restWords
  obtain ⟨⟨place, endKeyword, endArgs⟩, none, rfl, ends, noneWords⟩ :=
    List.map_eq_cons_iff.1 endingWords
  cases begins
  cases ends
  cases List.map_eq_nil_iff.1 noneWords
  exact ⟨line, inner, place, rfl, innerWords⟩

theorem keyword_ne_of_mem {block : Block} {inner : List Record}
    (words : inner.map Record.words = block.body) :
    ∀ record ∈ inner, record.keyword ≠ ".end" := by
  intro record member ends
  apply block.isInner record.words
  · rw [← words]
    exact List.mem_map_of_mem member
  · rw [Record.words, ends]
    rfl

/-- A block that one reader takes between models is taken by another one as well, if the
name is new there. The modules that are added correspond. -/
theorem mirrors_block {second : Reader} {block : Block} {all images : List Record}
    (words : all.map Record.words = block.rows) (imageWords : images.map Record.words = block.rows)
    (closed : first.current = none) (imageClosed : second.current = none)
    (domain : first.allocator.domain = second.allocator.domain)
    (taken : all.forM take first = (.ok ⟨⟩, last)) :
    ∃ module, block.header = [module.name] ∧ first.Adds module last ∧
      (second.design.contains module.name = false → ∃ image final,
        images.forM take second = (.ok ⟨⟩, final) ∧ second.Adds image final ∧
          last.allocator.MatchesModule final.allocator module image) := by
  obtain ⟨line, inner, lineEnd, rfl, innerWords⟩ := exists_of_map_words words
  obtain ⟨place, copies, placeEnd, rfl, copiesWords⟩ := exists_of_map_words imageWords
  obtain ⟨⟨⟩, start, began, rest⟩ := bind_eq_ok_iff.1 taken
  obtain ⟨name, isHeader, isNew, rfl⟩ := header_of_take_begin closed began
  obtain ⟨middle, ran, ending⟩ := forM_append_eq_ok_iff.1 rest
  rcases mirrors_takeAll rfl (keyword_ne_of_mem innerWords) (innerWords.trans copiesWords.symm)
    (alike_opened domain line place name) with
    ⟨_, _, _, _, failed, _⟩ | ⟨_, _, _, center, ran', imageRan, toMiddle, toCenter, alike, -⟩
  · cases ran.symm.trans failed
  · cases ran.symm.trans ran'
    obtain ⟨module, isOpen⟩ := Option.isSome_iff_exists.1 (toMiddle.isSome rfl)
    obtain ⟨image, imageOpen⟩ := Option.isSome_iff_exists.1 (toCenter.isSome rfl)
    have current := alike.current
    rw [isOpen, imageOpen] at current
    cases current with
    | some matched =>
      cases (bind_of_ok (take_end isOpen lineEnd block.footer)).symm.trans ending
      obtain ⟨rfl, adds⟩ := adds_ended isNew toMiddle isOpen lineEnd
      refine ⟨module, isHeader, adds, fun imageNew => ?_⟩
      have began := take_begin imageClosed place [module.name]
      dsimp only at began
      rw [if_neg (Bool.eq_false_iff.1 imageNew), ← isHeader] at began
      refine ⟨image, center.ended placeEnd image, ?_, ?_, ?_⟩
      · refine bind_eq_ok_iff.2 ⟨⟨⟩, _, began, ?_⟩
        exact forM_append_eq_ok_iff.2 ⟨center, imageRan, bind_of_ok (take_end imageOpen _ _)⟩
      · exact (adds_ended imageNew toCenter imageOpen placeEnd).2
      · rw [allocator_ended, allocator_ended]
        exact matched

end Reader

/-- The module may come from the block: a reader that was between models got it so. The
wires are numbered by the allocator, if not by it alone. -/
def Block.Yields (block : Block) (allocator : Allocator) (module : Module) : Prop :=
  ∃ (first last : Reader) (all : List Record), first.current = none ∧
    all.map Record.words = block.rows ∧ all.forM Reader.take first = (.ok ⟨⟩, last) ∧
      first.Adds module last ∧ last.allocator.Extends allocator

namespace Block.Yields

variable {block : Block} {allocator later : Allocator} {module : Module}

theorem of_extends (yields : block.Yields allocator module) (extension : allocator.Extends later) :
    block.Yields later module := by
  obtain ⟨first, last, all, closed, words, taken, adds, toAllocator⟩ := yields
  exact ⟨first, last, all, closed, words, taken, adds, toAllocator.trans extension⟩

/-- All modules of a block have its name. -/
theorem header (yields : block.Yields allocator module) : block.header = [module.name] := by
  obtain ⟨first, last, all, closed, words, taken, adds, _⟩ := yields
  obtain ⟨other, isHeader, otherAdds, _⟩ :=
    Reader.mirrors_block words words closed closed rfl taken
  have same := List.append_cancel_left (adds.modules.symm.trans otherAdds.modules)
  cases same
  exact isHeader

theorem name (yields : block.Yields allocator module) : module.name = block.name := by
  rw [Block.name, yields.header]
  rfl

/-- What else a reader between models makes of the block: it adds a module that
corresponds to this one, unless the name is taken. -/
theorem exists_taken (yields : block.Yields allocator module) {second : Reader}
    (closed : second.current = none) (domain : allocator.domain = second.allocator.domain)
    {images : List Record} (words : images.map Record.words = block.rows)
    (isNew : second.design.contains module.name = false) :
    ∃ image final, images.forM Reader.take second = (.ok ⟨⟩, final) ∧ second.Adds image final ∧
      allocator.MatchesModule final.allocator module image := by
  obtain ⟨first, last, all, firstClosed, allWords, taken, adds, extension⟩ := yields
  have sameDomain := (adds.extension.trans extension).domain.symm.trans domain
  obtain ⟨other, _, otherAdds, mirrored⟩ :=
    Reader.mirrors_block allWords words firstClosed closed sameDomain taken
  cases List.append_cancel_left (adds.modules.symm.trans otherAdds.modules)
  obtain ⟨image, final, imageTaken, imageAdds, matched⟩ := mirrored isNew
  exact ⟨image, final, imageTaken, imageAdds, matched.of_extends extension (.refl _)⟩

/-- All modules that a block yields correspond. -/
theorem matchesModule (yields : block.Yields allocator module) {other : Allocator} {image : Module}
    (imageYields : block.Yields other image) (domain : allocator.domain = other.domain) :
    allocator.MatchesModule other module image := by
  have names : module.name = image.name := yields.name.trans imageYields.name.symm
  obtain ⟨second, final, images, closed, words, taken, adds, extension⟩ := imageYields
  have sameDomain := domain.trans (adds.extension.trans extension).domain
  have isNew := adds.isNew
  rw [← names] at isNew
  obtain ⟨copy, finalCopy, copyTaken, copyAdds, matched⟩ :=
    yields.exists_taken closed sameDomain words isNew
  cases taken.symm.trans copyTaken
  cases List.append_cancel_left (adds.modules.symm.trans copyAdds.modules)
  exact matched.of_extends (.refl _) extension

end Block.Yields

namespace Reader

/-! ### Several blocks and texts -/

/-- The modules of the blocks join those that were read before, all of them under
different names. -/
structure AddsAll (first : Reader) (blocks : List Block) (added : List Module)
    (last : Reader) : Prop where
  extension : first.allocator.Extends last.allocator
  closed : last.current = none
  modules : last.design.modules = first.design.modules ++ added
  yields : List.Forall₂ (fun block module => block.Yields last.allocator module) blocks added
  distinct : (first.design.modules.map Module.name).Nodup →
    (last.design.modules.map Module.name).Nodup

namespace AddsAll

variable {first middle last : Reader} {blocks others : List Block} {modules results : List Module}

theorem refl (closed : first.current = none) : first.AddsAll [] [] first :=
  ⟨.refl _, closed, (List.append_nil _).symm, .nil, id⟩

theorem trans (start : first.AddsAll blocks modules middle)
    (rest : middle.AddsAll others results last) :
    first.AddsAll (blocks ++ others) (modules ++ results) last := by
  refine ⟨start.extension.trans rest.extension, rest.closed, ?_, ?_, rest.distinct ∘ start.distinct⟩
  · rw [rest.modules, start.modules, List.append_assoc]
  · have earlier := start.yields.imp fun _ _ yields => yields.of_extends rest.extension
    exact List.rel_append earlier rest.yields

/-- The cover that is expected does not matter between models. -/
theorem endText (adds : first.AddsAll blocks modules last) :
    Reader.endText last = (.ok ⟨⟩, { last with cover := none }) ∧
      first.AddsAll blocks modules { last with cover := none } := by
  obtain ⟨design, current, cover, lastLine, sets, openSets⟩ := last
  obtain rfl : current = none := adds.closed
  exact ⟨rfl, adds.extension, rfl, adds.modules, adds.yields, adds.distinct⟩

/-- The names of the modules are those of the blocks. -/
theorem names (adds : first.AddsAll blocks modules last) :
    modules.map Module.name = blocks.map Block.name := by
  rw [← List.forall₂_eq_eq_eq, List.forall₂_map_left_iff, List.forall₂_map_right_iff]
  exact adds.yields.flip.imp fun _ _ => Block.Yields.name

end AddsAll

variable {first last : Reader}

/-- A block adds the one module that it yields. -/
theorem addsAll_of_block {block : Block} {all : List Record}
    (words : all.map Record.words = block.rows) (closed : first.current = none)
    (taken : all.forM take first = (.ok ⟨⟩, last)) :
    ∃ module, first.AddsAll [block] [module] last := by
  obtain ⟨module, _, adds, _⟩ := mirrors_block words words closed closed rfl taken
  refine ⟨module, adds.extension, adds.closed, adds.modules, ?_, fun distinct => ?_⟩
  · exact .cons ⟨first, last, all, closed, words, taken, adds, .refl _⟩ .nil
  · rw [adds.modules]
    exact Design.nodup_names_append distinct adds.isNew

/-- Taking blocks adds the modules that they yield. -/
theorem addsAll_of_blocks {blocks : List Block} {all : List Record}
    (words : all.map Record.words = blocks.flatMap Block.rows) (closed : first.current = none)
    (taken : all.forM take first = (.ok ⟨⟩, last)) :
    ∃ modules, first.AddsAll blocks modules last := by
  induction blocks generalizing first all with
  | nil =>
    cases List.map_eq_nil_iff.1 words
    cases taken
    exact ⟨[], .refl closed⟩
  | cons block rest ih =>
    obtain ⟨here, after, rfl, hereWords, afterWords⟩ := List.map_eq_append_iff.1 words
    obtain ⟨middle, begun, done⟩ := forM_append_eq_ok_iff.1 taken
    obtain ⟨module, adds⟩ := addsAll_of_block hereWords closed begun
    obtain ⟨modules, others⟩ := ih afterWords adds.closed done
    exact ⟨module :: modules, adds.trans others⟩

/-- Taking texts adds the modules that their blocks yield. -/
theorem addsAll_of_texts {blocks : List Block} {texts : List String}
    (arranged : Arranges texts blocks) (closed : first.current = none)
    (taken : texts.forM takeText first = (.ok ⟨⟩, last)) :
    ∃ modules, first.AddsAll blocks modules last := by
  induction arranged generalizing first with
  | nil =>
    cases taken
    exact ⟨[], .refl closed⟩
  | cons here _ ih =>
    obtain ⟨⟨⟩, middle, begun, done⟩ := bind_eq_ok_iff.1 taken
    obtain ⟨⟨⟩, atEnd, begun, ended⟩ := bind_eq_ok_iff.1 begun
    obtain ⟨modules, adds⟩ := addsAll_of_blocks here closed begun
    obtain ⟨endsText, adds⟩ := adds.endText
    cases endsText.symm.trans ended
    obtain ⟨results, others⟩ := ih adds.closed done
    exact ⟨modules ++ results, adds.trans others⟩

end Reader

/-- The block can be read by itself. -/
def Block.IsReadable (block : Block) (domain : Domain) : Prop :=
  ∃ (allocator : Allocator) (module : Module),
    allocator.domain = domain ∧ block.Yields allocator module

namespace Reader

variable {first last : Reader}

/-- Readable blocks of different names are taken between models. -/
theorem exists_takes_blocks {blocks : List Block} {all : List Record}
    (words : all.map Record.words = blocks.flatMap Block.rows) (closed : first.current = none)
    (readable : ∀ block ∈ blocks, block.IsReadable first.allocator.domain)
    (distinct : (first.design.modules.map Module.name ++ blocks.map Block.name).Nodup) :
    ∃ last, all.forM take first = (.ok ⟨⟩, last) := by
  induction blocks generalizing first all with
  | nil =>
    cases List.map_eq_nil_iff.1 words
    exact ⟨first, rfl⟩
  | cons block rest ih =>
    obtain ⟨here, after, rfl, hereWords, afterWords⟩ := List.map_eq_append_iff.1 words
    obtain ⟨⟨allocator, module, domain, yields⟩, restReadable⟩ := List.forall_mem_cons.1 readable
    have isNew : first.design.contains module.name = false := by
      rw [Design.contains_eq_false_iff, yields.name]
      exact fun taken => List.disjoint_of_nodup_append distinct taken List.mem_cons_self
    obtain ⟨image, middle, taken, adds, matched⟩ :=
      yields.exists_taken closed domain hereWords isNew
    rw [← adds.extension.domain] at restReadable
    have stillDistinct : (middle.design.modules.map Module.name ++
        rest.map Block.name).Nodup := by
      rw [adds.modules, List.map_append, List.map_singleton, ← matched.name, yields.name,
        List.append_assoc]
      exact distinct
    obtain ⟨last, done⟩ := ih afterWords adds.closed restReadable stillDistinct
    exact ⟨last, forM_append_eq_ok_iff.2 ⟨middle, taken, done⟩⟩

/-- Texts of readable blocks of different names are taken. -/
theorem exists_takes_texts {blocks : List Block} {texts : List String}
    (arranged : Arranges texts blocks) (closed : first.current = none)
    (readable : ∀ block ∈ blocks, block.IsReadable first.allocator.domain)
    (distinct : (first.design.modules.map Module.name ++ blocks.map Block.name).Nodup) :
    ∃ last, texts.forM takeText first = (.ok ⟨⟩, last) := by
  induction arranged generalizing first with
  | nil => exact ⟨first, rfl⟩
  | cons here _ ih =>
    rw [List.map_append, ← List.append_assoc] at distinct
    obtain ⟨hereReadable, restReadable⟩ := List.forall_mem_append.1 readable
    obtain ⟨middle, taken⟩ :=
      exists_takes_blocks here closed hereReadable (List.Nodup.of_append_left distinct)
    obtain ⟨modules, adds⟩ := addsAll_of_blocks here closed taken
    obtain ⟨ended, atEnd⟩ := adds.endText
    rw [← atEnd.extension.domain] at restReadable
    rw [← adds.names, ← List.map_append, ← atEnd.modules] at distinct
    obtain ⟨last, done⟩ := ih atEnd.closed restReadable distinct
    exact ⟨last, bind_eq_ok_iff.2 ⟨⟨⟩, _, bind_eq_ok_iff.2 ⟨⟨⟩, middle, taken, ended⟩, done⟩⟩

/-- Texts are taken from the start exactly if all blocks are readable and have different
names. -/
theorem exists_reads_iff {allocator : Allocator} {blocks : List Block} {texts : List String}
    (arranged : Arranges texts blocks) :
    (∃ last, texts.forM takeText (start allocator) = (.ok ⟨⟩, last)) ↔
      (∀ block ∈ blocks, block.IsReadable allocator.domain) ∧ (blocks.map Block.name).Nodup := by
  constructor
  · rintro ⟨last, taken⟩
    obtain ⟨modules, adds⟩ := addsAll_of_texts arranged rfl taken
    constructor
    · intro block member
      obtain ⟨module, _, yields⟩ := exists_of_mem_right adds.yields.flip member
      exact ⟨last.allocator, module, adds.extension.domain, yields⟩
    · have distinct := adds.distinct List.nodup_nil
      rwa [adds.modules, List.map_append, adds.names] at distinct
  · rintro ⟨readable, distinct⟩
    exact exists_takes_texts arranged rfl readable distinct

/-- The same blocks, in whatever order, lead to designs that correspond. -/
theorem AddsAll.corresponds {allocator : Allocator} {blocks others : List Block}
    {modules images : List Module} {final : Reader} (perm : blocks.Perm others)
    (adds : (start allocator).AddsAll blocks modules last)
    (imageAdds : (start allocator).AddsAll others images final) :
    last.design.Corresponds final.design := by
  have domain : last.allocator.domain = final.allocator.domain :=
    adds.extension.domain.trans imageAdds.extension.domain.symm
  refine ⟨domain, adds.distinct List.nodup_nil, imageAdds.distinct List.nodup_nil, ?_, ?_⟩
  · intro module member
    rw [adds.modules] at member
    obtain ⟨block, isBlock, yields⟩ := exists_of_mem_right adds.yields member
    obtain ⟨image, isImage, imageYields⟩ :=
      exists_of_mem_right imageAdds.yields.flip (perm.mem_iff.1 isBlock)
    refine ⟨image, ?_, Block.Yields.matchesModule yields imageYields domain⟩
    rw [imageAdds.modules]
    exact isImage
  · intro image member
    rw [imageAdds.modules] at member
    obtain ⟨block, isBlock, imageYields⟩ := exists_of_mem_right imageAdds.yields member
    obtain ⟨module, isModule, yields⟩ :=
      exists_of_mem_right adds.yields.flip (perm.mem_iff.2 isBlock)
    refine ⟨module, ?_, Block.Yields.matchesModule yields imageYields domain⟩
    rw [adds.modules]
    exact isModule

end Reader

/-- Arranged texts are read if they are taken, the top exists, and all instances can be
resolved. -/
theorem readTexts_eq_ok_iff {allocator : Allocator} {top : String} {blocks : List Block}
    {texts : List String} (arranged : Arranges texts blocks) {design : Design} :
    readTexts allocator (some top) texts = .ok design ↔
      ∃ last, texts.forM Reader.takeText (Reader.start allocator) = (.ok ⟨⟩, last) ∧
        (∃ module, last.design.find? top = some module) ∧
          Design.resolved? { last.design with top := some top } = .ok design := by
  unfold readTexts
  dsimp only
  cases taken : texts.forM Reader.takeText (Reader.start allocator) with
  | mk outcome last =>
    cases outcome with
    | error error =>
      have failed : ExceptT.run (do texts.forM Reader.takeText; Reader.finish)
          (Reader.start allocator) = (.error error, last) := Reader.bind_of_error taken
      rw [failed]
      refine iff_of_false ?_ (by rintro ⟨_, ⟨⟩, _⟩)
      rintro ⟨⟩
    | ok done =>
      obtain ⟨modules, adds⟩ := Reader.addsAll_of_texts arranged rfl taken
      have finished : ExceptT.run (do texts.forM Reader.takeText; Reader.finish)
          (Reader.start allocator) = (.ok last.design, { last with cover := none }) :=
        (Reader.bind_of_ok taken).trans (Reader.bind_of_ok adds.endText.1)
      rw [finished]
      change last.design.setTop top >>= Design.resolved? = .ok design ↔ _
      rw [Design.setTop, Design.findTop]
      cases found : last.design.find? top with
      | none =>
        refine iff_of_false (by rintro ⟨⟩) ?_
        rintro ⟨_, ⟨⟩, ⟨module, isModule⟩, _⟩
        cases found.symm.trans isModule
      | some module =>
        constructor
        · exact fun resolved => ⟨last, rfl, ⟨module, found⟩, resolved⟩
        · rintro ⟨_, ⟨⟩, _, resolved⟩
          exact resolved

/-- Two arrangements of the same blocks lead to designs that correspond, if both are
taken. -/
theorem corresponds_of_taken {allocator : Allocator} {blocks others : List Block}
    {texts otherTexts : List String} (perm : blocks.Perm others)
    (arranged : Arranges texts blocks) (otherArranged : Arranges otherTexts others)
    {last final : Reader}
    (taken : texts.forM Reader.takeText (Reader.start allocator) = (.ok ⟨⟩, last))
    (otherTaken : otherTexts.forM Reader.takeText (Reader.start allocator) = (.ok ⟨⟩, final)) :
    last.design.Corresponds final.design := by
  obtain ⟨modules, adds⟩ := Reader.addsAll_of_texts arranged rfl taken
  obtain ⟨images, otherAdds⟩ := Reader.addsAll_of_texts otherArranged rfl otherTaken
  exact adds.corresponds perm otherAdds

/-- If one arrangement of the blocks is read, so is every other one. -/
theorem exists_readTexts_of_perm {allocator : Allocator} {top : String}
    {blocks others : List Block} {texts otherTexts : List String} (perm : blocks.Perm others)
    (arranged : Arranges texts blocks) (otherArranged : Arranges otherTexts others)
    {design : Design} (read : readTexts allocator (some top) texts = .ok design) :
    ∃ other, readTexts allocator (some top) otherTexts = .ok other := by
  obtain ⟨last, taken, ⟨module, found⟩, resolved⟩ := (readTexts_eq_ok_iff arranged).1 read
  obtain ⟨readable, distinct⟩ := (Reader.exists_reads_iff arranged).1 ⟨last, taken⟩
  obtain ⟨final, otherTaken⟩ := (Reader.exists_reads_iff otherArranged).2
    ⟨fun block member => readable block (perm.mem_iff.2 member),
      (perm.map Block.name).nodup_iff.1 distinct⟩
  have corresponds := corresponds_of_taken perm arranged otherArranged taken otherTaken
  obtain ⟨image, imageFound, _⟩ := corresponds.exists_image found
  have resolvable := (corresponds.withTop (some top) (some top)).isResolvable
    (Design.exists_resolved?_iff.1 ⟨design, resolved⟩)
  obtain ⟨other, otherResolved⟩ := Design.exists_resolved?_iff.2 resolvable
  exact ⟨other, (readTexts_eq_ok_iff otherArranged).2
    ⟨final, otherTaken, ⟨image, imageFound⟩, otherResolved⟩⟩

/-- The order of the models of a netlist and the cuts between them into texts do not
matter, once the top is named: reading succeeds for all arrangements or for none, and the
designs agree but for the numbers of wires. -/
theorem readTexts_perm {blocks others : List Block} {texts otherTexts : List String}
    (perm : blocks.Perm others) (arranged : Arranges texts blocks)
    (otherArranged : Arranges otherTexts others) (allocator : Allocator) (top : String) :
    ((∃ design, readTexts allocator (some top) texts = .ok design) ↔
      ∃ design, readTexts allocator (some top) otherTexts = .ok design) ∧
    ∀ design other, readTexts allocator (some top) texts = .ok design →
      readTexts allocator (some top) otherTexts = .ok other → design.AgreesByName other := by
  refine ⟨⟨?_, ?_⟩, fun design other read otherRead => ?_⟩
  · rintro ⟨design, read⟩
    exact exists_readTexts_of_perm perm arranged otherArranged read
  · rintro ⟨design, read⟩
    exact exists_readTexts_of_perm perm.symm otherArranged arranged read
  · obtain ⟨last, taken, _, resolved⟩ := (readTexts_eq_ok_iff arranged).1 read
    obtain ⟨final, otherTaken, _, otherResolved⟩ := (readTexts_eq_ok_iff otherArranged).1 otherRead
    have corresponds := corresponds_of_taken perm arranged otherArranged taken otherTaken
    have top := (Design.resolved?_eq_ok resolved).2.1
    have otherTop := (Design.resolved?_eq_ok otherResolved).2.1
    exact ((corresponds.withTop _ _).of_resolved? resolved otherResolved).agreesByName
      (top.trans otherTop.symm)

/-- A top that swaps the inputs of a leaf. -/
def swappedTop : Block :=
  ⟨["top"], [[".inputs", "a", "b"], [".outputs", "y"], [".subckt", "leaf", "b=a", "a=b", "o=y"]],
    [], by decide⟩

/-- A leaf whose ports have names of wires of the top. -/
def swappedLeaf : Block :=
  ⟨["leaf"], [[".inputs", "a", "b"], [".outputs", "o"], [".gate", "INV", "A=b", "Y=t"],
    [".gate", "AND", "A=a", "B=t", "Y=o"]], [], by decide⟩

/-- The top as a text. -/
def swappedTopText : String :=
  ".model top\n" ++
  ".inputs a b\n" ++
  ".outputs y\n" ++
  ".subckt leaf b=a a=b o=y\n" ++
  ".end\n"

/-- The leaf as a text, with a comment and a record on two lines. -/
def swappedLeafText : String :=
  "# A leaf.\n" ++
  ".model leaf\n" ++
  ".inputs a \\\n" ++
  "  b\n" ++
  ".outputs o\n" ++
  ".gate INV A=b Y=t\n" ++
  ".gate AND A=a B=t Y=o\n" ++
  ".end\n"

theorem arranges_swapped :
    Arranges [swappedTopText ++ swappedLeafText] [swappedTop, swappedLeaf] ∧
      Arranges [swappedLeafText, "", swappedTopText] [swappedLeaf, swappedTop] := by
  constructor
  · exact @Arranges.cons _ [] [swappedTop, swappedLeaf] [] (by cbv) .nil
  · exact @Arranges.cons _ _ [swappedLeaf] _ (by cbv)
      (@Arranges.cons _ _ [] _ (by cbv) (@Arranges.cons _ [] [swappedTop] [] (by cbv) .nil))

/-- The design with the top in front. -/
def swappedDesign : Design :=
  ⟨⟨.boolean, ["a", "b", "y", "o", "t"], by decide, by decide⟩,
    [⟨"top", .boolean, [2, 3], [4], [],
        [⟨"leaf", [⟨2, 3⟩, ⟨3, 2⟩, ⟨4, 5⟩], [⟨2, 3⟩, ⟨3, 2⟩], [⟨4, 5⟩]⟩]⟩,
      ⟨"leaf", .boolean, [2, 3], [5], [⟨.inv, [3], 6⟩, ⟨.and, [2, 6], 5⟩], []⟩], some "top", true⟩

/-- The design with the leaf in front. -/
def swappedDesignFromLeaf : Design :=
  ⟨⟨.boolean, ["a", "b", "o", "t", "y"], by decide, by decide⟩,
    [⟨"leaf", .boolean, [2, 3], [4], [⟨.inv, [3], 5⟩, ⟨.and, [2, 5], 4⟩], []⟩,
      ⟨"top", .boolean, [2, 3], [6], [],
        [⟨"leaf", [⟨2, 3⟩, ⟨3, 2⟩, ⟨6, 4⟩], [⟨2, 3⟩, ⟨3, 2⟩], [⟨6, 4⟩]⟩]⟩], some "top", true⟩

theorem readTexts_perm_swapped :
    [swappedTop, swappedLeaf].Perm [swappedLeaf, swappedTop] ∧
      Arranges [swappedTopText ++ swappedLeafText] [swappedTop, swappedLeaf] ∧
      Arranges [swappedLeafText, "", swappedTopText] [swappedLeaf, swappedTop] ∧
      readTexts (.empty .boolean) (some "top") [swappedTopText ++ swappedLeafText] =
        .ok swappedDesign ∧
      (∃ other, readTexts (.empty .boolean) (some "top") [swappedLeafText, "", swappedTopText] =
        .ok other) ∧
      swappedDesign.AgreesByName swappedDesignFromLeaf := by
  have perm : [swappedTop, swappedLeaf].Perm [swappedLeaf, swappedTop] := .swap _ _ _
  obtain ⟨arranged, otherArranged⟩ := arranges_swapped
  obtain ⟨both, agree⟩ := readTexts_perm perm arranged otherArranged (.empty .boolean) "top"
  have read : readTexts (.empty .boolean) (some "top") [swappedTopText ++ swappedLeafText] =
      .ok swappedDesign := by cbv
  have otherRead : readTexts (.empty .boolean) (some "top")
      [swappedLeafText, "", swappedTopText] = .ok swappedDesignFromLeaf := by cbv
  exact ⟨perm, arranged, otherArranged, read, both.1 ⟨_, read⟩, agree _ _ read otherRead⟩

end Netlist.Blif
