import Netlist.Proofs.BlifReading
import Netlist.Proofs.Translation

/-!
# Readers that mirror each other

Two readers of one domain are alike if their open models are alike but for the numbers of
wires (`Reader.Alike`). A record that neither begins nor ends a model is refused by both or
taken by both, wherever it stands in their texts, and leaves them alike
(`Reader.mirrors_take`): which names have numbers already decides the numbers of others,
but nothing else.
-/

namespace Netlist.Blif.Reader

/-- The open models are the same but for the numbers of wires. -/
structure Alike (first second : Reader) : Prop where
  domain : first.allocator.domain = second.allocator.domain
  cover : first.cover = second.cover
  current : Option.Rel (first.allocator.MatchesModule second.allocator) first.current second.current

/-- What a record within a model may do: number wires and change the open model. -/
structure Advances (first last : Reader) : Prop where
  extension : first.allocator.Extends last.allocator
  modules : last.design.modules = first.design.modules
  name : last.current.map Module.name = first.current.map Module.name

theorem Advances.refl (reader : Reader) : reader.Advances reader :=
  ⟨Allocator.Extends.refl _, rfl, rfl⟩

theorem Advances.isSome {first last : Reader} (advances : first.Advances last)
    (isOpen : first.current.isSome) : last.current.isSome := by
  rwa [← Option.isSome_map (f := Module.name), advances.name, Option.isSome_map]

theorem Advances.trans {first middle last : Reader} (start : first.Advances middle)
    (rest : middle.Advances last) : first.Advances last :=
  ⟨start.extension.trans rest.extension, rest.modules.trans start.modules,
    rest.name.trans start.name⟩

/-- From alike readers the steps either both fail, or lead to alike readers again and give
values that are the same in some sense. -/
def Mirrors {α : Type} (first second : Reader) (step image : Step α)
    (same : Reader → Reader → α → α → Prop) : Prop :=
  first.Alike second →
    (∃ error fault last final,
      step first = (.error error, last) ∧ image second = (.error fault, final)) ∨
    ∃ value copy last final, step first = (.ok value, last) ∧ image second = (.ok copy, final) ∧
      first.Advances last ∧ second.Advances final ∧ last.Alike final ∧ same last final value copy

namespace Mirrors

variable {α β : Type} {first second : Reader}

/-- Steps that leave the readers as they are. -/
theorem pure {same : Reader → Reader → α → α → Prop} {value copy : α}
    (isSame : same first second value copy) :
    Mirrors first second (Pure.pure value : Step α) (Pure.pure copy) same :=
  fun alike => Or.inr ⟨value, copy, first, second, rfl, rfl, .refl _, .refl _, alike, isSame⟩

theorem refuse {line place : Nat} {fault other : Fault} {same : Reader → Reader → α → α → Prop} :
    Mirrors first second (Reader.refuse line fault : Step α) (Reader.refuse place other) same :=
  fun _ => Or.inl ⟨_, _, first, second, rfl, rfl⟩

theorem refuse_bind {line place : Nat} {fault other : Fault} {next : α → Step β}
    {image : α → Step β} {same : Reader → Reader → β → β → Prop} :
    Mirrors first second (Reader.refuse line fault >>= next) (Reader.refuse place other >>= image)
      same :=
  fun _ => Or.inl ⟨_, _, first, second, rfl, rfl⟩

theorem bind {step image : Step α} {next follow : α → Step β}
    {same : Reader → Reader → α → α → Prop} {same' : Reader → Reader → β → β → Prop}
    (start : Mirrors first second step image same)
    (rest : ∀ middle center value copy, first.Advances middle → second.Advances center →
      same middle center value copy → Mirrors middle center (next value) (follow copy) same') :
    Mirrors first second (step >>= next) (image >>= follow) same' := by
  intro alike
  rcases start alike with ⟨error, fault, last, final, failed, imageFailed⟩ |
    ⟨value, copy, middle, center, stepped, imageStepped, toMiddle, toCenter, alikeThen, isSame⟩
  · exact Or.inl ⟨error, fault, last, final, bind_of_error failed, bind_of_error imageFailed⟩
  · rw [bind_of_ok stepped, bind_of_ok imageStepped]
    refine (rest middle center value copy toMiddle toCenter isSame alikeThen).imp_right ?_
    rintro ⟨result, other, last, final, done, imageDone, toLast, toFinal, atEnd⟩
    exact ⟨result, other, last, final, done, imageDone, toMiddle.trans toLast,
      toCenter.trans toFinal, atEnd⟩

theorem get : Mirrors first second (MonadState.get : Step Reader) MonadState.get
    fun last final reader image =>
      last = first ∧ final = second ∧ reader = first ∧ image = second :=
  fun alike => Or.inr ⟨first, second, first, second, rfl, rfl, .refl _, .refl _, alike, rfl, rfl,
    rfl, rfl⟩

/-- Steps that change both readers. -/
theorem modifying {change shift : Reader → Reader} (left : first.Advances (change first))
    (right : second.Advances (shift second))
    (stays : first.Alike second → (change first).Alike (shift second)) :
    Mirrors first second (modify change : Step PUnit) (modify shift) fun _ _ _ _ => True :=
  fun alike => Or.inr ⟨⟨⟩, ⟨⟩, change first, shift second, rfl, rfl, left, right, stays alike,
    trivial⟩

theorem mono {step image : Step α} {same same' : Reader → Reader → α → α → Prop}
    (mirrors : Mirrors first second step image same)
    (weaker : ∀ last final value copy, same last final value copy →
      same' last final value copy) : Mirrors first second step image same' := by
  intro alike
  refine (mirrors alike).imp_right ?_
  rintro ⟨value, copy, last, final, done, imageDone, toLast, toFinal, alikeThen, isSame⟩
  exact ⟨value, copy, last, final, done, imageDone, toLast, toFinal, alikeThen,
    weaker last final value copy isSame⟩

/-- Items lead to values that are the same one by one, if values stay the same while more
wires are numbered. -/
theorem mapM {items : List α} {step image : α → Step β} {same : Reader → Reader → β → β → Prop}
    (stays : ∀ middle last center final value copy, middle.Advances last → center.Advances final →
      same middle center value copy → same last final value copy)
    (each : ∀ middle center, ∀ item ∈ items,
      Mirrors middle center (step item) (image item) same) :
    Mirrors first second (items.mapM step) (items.mapM image) fun last final values copies =>
      values.length = items.length ∧ List.Forall₂ (same last final) values copies := by
  induction items generalizing first second with
  | nil =>
    rw [List.mapM_nil, List.mapM_nil]
    exact pure ⟨rfl, .nil⟩
  | cons item rest ih =>
    rw [List.mapM_cons, List.mapM_cons]
    apply bind (each first second item List.mem_cons_self)
    intro middle center value copy _ _ isSame
    apply bind (ih fun _ _ other member => each _ _ other (List.mem_cons_of_mem _ member))
    rintro last final values copies toLast toFinal ⟨length, others⟩
    apply pure
    refine ⟨by rw [List.length_cons, length, List.length_cons], .cons ?_ others⟩
    exact stays middle last center final value copy toLast toFinal isSame

end Mirrors

variable {first second : Reader}

/-- Binding tokens are taken apart in the same way on all lines. -/
theorem splitBinding_eq_ok (token : String) (line place : Nat) :
    (∃ error fault, splitBinding line token = .error error ∧
      splitBinding place token = .error fault) ∨
    ∃ parts, splitBinding line token = .ok parts ∧ splitBinding place token = .ok parts := by
  unfold splitBinding
  split
  · exact Or.inr ⟨_, rfl, rfl⟩
  · exact Or.inl ⟨_, _, rfl, rfl⟩

theorem mirrors_splitBinding (token : String) (line place : Nat) :
    Mirrors first second (liftM (splitBinding line token) : Step _)
      (liftM (splitBinding place token)) fun _ _ parts copy => parts = copy := by
  intro alike
  rcases splitBinding_eq_ok token line place with ⟨error, fault, failed, imageFailed⟩ |
    ⟨parts, split, imageSplit⟩
  · rw [failed, imageFailed]
    exact Or.inl ⟨error, fault, first, second, rfl, rfl⟩
  · rw [split, imageSplit]
    exact Or.inr ⟨parts, parts, first, second, rfl, rfl, .refl _, .refl _, alike, rfl⟩

/-- Readers stay alike while wires are numbered. -/
theorem Alike.of_extends (alike : first.Alike second) {left right : Allocator}
    (leftExtension : first.allocator.Extends left)
    (rightExtension : second.allocator.Extends right) :
    Alike { first with design := { first.design with allocator := left } }
      { second with design := { second.design with allocator := right } } := by
  constructor
  · exact leftExtension.domain.trans (alike.domain.trans rightExtension.domain.symm)
  · exact alike.cover
  · exact rel_imp alike.current fun _ _ same =>
      same.of_extends leftExtension rightExtension

/-- A name gets a wire from both readers, or from none. -/
theorem mirrors_allocate (name : String) :
    Mirrors first second (liftM (first.allocator.allocate name) : Step _)
      (liftM (second.allocator.allocate name)) fun last final result image =>
        last = first ∧ final = second ∧ first.allocator.allocate name = .ok result ∧
          second.allocator.allocate name = .ok image := by
  intro alike
  have both : (∃ result, first.allocator.allocate name = .ok result) ↔
      ∃ result, second.allocator.allocate name = .ok result := by
    rw [Allocator.exists_allocate_iff, Allocator.exists_allocate_iff, alike.domain]
  cases allocated : first.allocator.allocate name with
  | error error =>
    cases imageAllocated : second.allocator.allocate name with
    | error fault => exact Or.inl ⟨error, fault, first, second, rfl, rfl⟩
    | ok image =>
      obtain ⟨_, succeeded⟩ := both.2 ⟨image, imageAllocated⟩
      cases allocated.symm.trans succeeded
  | ok result =>
    obtain ⟨image, imageAllocated⟩ := both.1 ⟨result, allocated⟩
    rw [imageAllocated]
    exact Or.inr ⟨result, image, first, second, rfl, rfl, .refl _, .refl _, alike, rfl, rfl, rfl,
      rfl⟩

theorem mirrors_wireOf (name : String) :
    Mirrors first second (wireOf name) (wireOf name) fun last final wire image =>
      last.allocator.Matches final.allocator wire image := by
  apply Mirrors.bind Mirrors.get
  rintro _ _ _ _ - - ⟨rfl, rfl, rfl, rfl⟩
  apply Mirrors.bind (mirrors_allocate name)
  rintro _ _ ⟨wire, left⟩ ⟨image, right⟩ - - ⟨rfl, rfl, allocated, imageAllocated⟩
  obtain ⟨leftExtension, named⟩ := Allocator.allocate_eq_ok allocated
  obtain ⟨rightExtension, imageNamed⟩ := Allocator.allocate_eq_ok imageAllocated
  exact fun alike => Or.inr ⟨wire, image, _, _, rfl, rfl, ⟨leftExtension, rfl, rfl⟩,
    ⟨rightExtension, rfl, rfl⟩, alike.of_extends leftExtension rightExtension, name, named,
    imageNamed⟩

/-- Both readers have an open model, or neither has. -/
theorem mirrors_openModule (line place : Nat) :
    Mirrors first second (openModule line) (openModule place) fun last final module image =>
      last = first ∧ final = second ∧ first.current = some module ∧
        second.current = some image ∧
          first.allocator.MatchesModule second.allocator module image := by
  apply Mirrors.bind Mirrors.get
  rintro _ _ first second - - ⟨rfl, rfl, rfl, rfl⟩
  intro alike
  have current := alike.current
  revert alike
  cases isOpen : first.current with
  | none =>
    cases imageOpen : second.current with
    | none => exact Mirrors.refuse
    | some image =>
      rw [isOpen, imageOpen] at current
      cases current
  | some module =>
    cases imageOpen : second.current with
    | none =>
      rw [isOpen, imageOpen] at current
      cases current
    | some image =>
      rw [isOpen, imageOpen] at current
      cases current with
      | some same => exact Mirrors.pure ⟨rfl, rfl, rfl, rfl, same⟩

/-- The open models are changed alike. -/
theorem mirrors_updateModule (line place : Nat) {change shift : Module → Module}
    {keep keepImage : WireSets → WireSets}
    (stays : ∀ module image, first.allocator.MatchesModule second.allocator module image →
      first.allocator.MatchesModule second.allocator (change module) (shift image))
    (names : ∀ module, (change module).name = module.name) :
    Mirrors first second (updateModule line change keep) (updateModule place shift keepImage)
      fun _ _ _ _ => True := by
  apply Mirrors.bind (mirrors_openModule line place)
  rintro first second module image - - ⟨rfl, rfl, isOpen, imageOpen, same⟩
  have changed := stays module image same
  have name : (some (change module)).map Module.name = first.current.map Module.name := by
    rw [isOpen, Option.map_some, Option.map_some, names]
  have imageName : (some (shift image)).map Module.name = second.current.map Module.name := by
    rw [imageOpen, Option.map_some, Option.map_some, ← changed.name, names, same.name]
  exact Mirrors.modifying ⟨.refl _, rfl, name⟩ ⟨.refl _, rfl, imageName⟩ fun alike =>
    ⟨alike.domain, alike.cover, .some changed⟩

/-- Corresponding gates join the open models. -/
theorem mirrors_appendGate (line place : Nat) {gate image : Gate}
    (same : first.allocator.MatchesGate second.allocator gate image) :
    Mirrors first second (appendGate line gate) (appendGate place image) fun _ _ _ _ => True :=
  mirrors_updateModule line place (fun _ _ alike => alike.addGate same) fun _ => rfl

theorem mirrors_expectCover (cover : Option String) :
    Mirrors first second (expectCover cover) (expectCover cover) fun _ _ _ _ => True :=
  Mirrors.modifying ⟨.refl _, rfl, rfl⟩ ⟨.refl _, rfl, rfl⟩ fun alike =>
    ⟨alike.domain, rfl, alike.current⟩

theorem mirrors_setLine (line place : Nat) :
    Mirrors first second (modify fun reader => { reader with lastLine := line } : Step PUnit)
      (modify fun reader => { reader with lastLine := place }) fun _ _ _ _ => True :=
  Mirrors.modifying ⟨.refl _, rfl, rfl⟩ ⟨.refl _, rfl, rfl⟩ fun alike =>
    ⟨alike.domain, alike.cover, alike.current⟩

/-- Wires that were the same stay so. -/
theorem matches_of_advances (middle last center final : Reader) (wire image : Wire)
    (left : middle.Advances last) (right : center.Advances final)
    (same : middle.allocator.Matches center.allocator wire image) :
    last.allocator.Matches final.allocator wire image :=
  same.of_extends left.extension right.extension

theorem mirrors_wires (names : List String) :
    Mirrors first second (names.mapM wireOf) (names.mapM wireOf) fun last final wires images =>
      List.Forall₂ (last.allocator.Matches final.allocator) wires images := by
  apply (Mirrors.mapM matches_of_advances fun _ _ name _ => mirrors_wireOf name).mono
  exact fun _ _ _ _ same => same.2

theorem mirrors_declarePorts (line place : Nat) {add : Module → Wire → Module}
    (stays : ∀ (left right : Allocator) module image wire copy,
      left.MatchesModule right module image → left.Matches right wire copy →
      left.MatchesModule right (add module wire) (add image copy))
    (names : ∀ module wire, (add module wire).name = module.name) (args : List String) :
    Mirrors first second (declarePorts line add args) (declarePorts place add args)
      fun _ _ _ _ => True := by
  apply Mirrors.bind (mirrors_wires _)
  intro middle center wires images _ _ same
  apply mirrors_updateModule
  · exact fun _ _ alike => List.rel_foldl
      (fun module image alike wire copy port => stays _ _ module image wire copy alike port) alike
      same
  · exact name_foldl names wires

theorem mirrors_boundWires (line place : Nat) (bindings : List String) :
    Mirrors first second (boundWires line bindings) (boundWires place bindings)
      fun last final wires images => wires.length = bindings.length ∧
        List.Forall₂ (last.allocator.Matches final.allocator) wires images := by
  apply Mirrors.mapM matches_of_advances
  intro middle center token _
  apply Mirrors.bind (mirrors_splitBinding token line place)
  rintro _ _ ⟨pin, name⟩ _ - - rfl
  exact mirrors_wireOf name

/-- The last of the wires of a gate is its output. -/
theorem matchesGate_of_forall₂ {left right : Allocator} {wires images : List Wire}
    (same : List.Forall₂ (left.Matches right) wires images) (nonempty : wires ≠ [])
    (operator : Operator) :
    left.MatchesGate right ⟨operator, wires.dropLast, wires.getLastD 0⟩
      ⟨operator, images.dropLast, images.getLastD 0⟩ := by
  obtain ⟨inputs, output, rfl⟩ := (List.eq_nil_or_concat' wires).resolve_left nonempty
  have imageNonempty : images ≠ [] := by
    rintro rfl
    exact nonempty (List.forall₂_nil_right_iff.1 same)
  obtain ⟨copies, target, rfl⟩ := (List.eq_nil_or_concat' images).resolve_left imageNonempty
  have reversed := List.forall₂_reverse_iff.2 same
  rw [List.reverse_concat, List.reverse_concat] at reversed
  obtain ⟨last, others⟩ := List.forall₂_cons.1 reversed
  rw [List.dropLast_concat, List.dropLast_concat, List.getLastD_concat, List.getLastD_concat]
  exact ⟨rfl, List.forall₂_reverse_iff.1 others, last⟩

theorem mirrors_addGate (line place : Nat) (args : List String) :
    Mirrors first second (addGate line args) (addGate place args) fun _ _ _ _ => True := by
  unfold addGate
  split
  · rename_i operatorName token rest
    apply Mirrors.bind (mirrors_boundWires line place _)
    rintro middle center wires images _ _ ⟨length, same⟩
    have gates := matchesGate_of_forall₂ same
      (List.ne_nil_of_length_pos (length ▸ Nat.succ_pos _)) (Operator.ofName operatorName)
    have lengths : images.dropLast.length = wires.dropLast.length := by
      rw [List.length_dropLast, List.length_dropLast, same.length_eq]
    simp only [lengths]
    split
    · split
      · exact Mirrors.refuse_bind
      · exact mirrors_appendGate line place gates
    · exact mirrors_appendGate line place gates
  · exact Mirrors.refuse

/-- The pins of both instances are the same wires, and so are what they are bound to. -/
theorem mirrors_pairings (line place : Nat) (seen tokens : List String) :
    Mirrors first second (pairings line seen tokens) (pairings place seen tokens)
      fun last final pairings images =>
        List.Forall₂ (last.allocator.MatchesPairing final.allocator) pairings images := by
  induction tokens generalizing first second seen with
  | nil => exact Mirrors.pure .nil
  | cons token rest ih =>
    apply Mirrors.bind (mirrors_splitBinding token line place)
    rintro _ _ ⟨pin, name⟩ _ - - rfl
    dsimp only
    split
    · exact Mirrors.refuse_bind
    · apply Mirrors.bind (mirrors_wireOf pin)
      intro second secondImage callee calleeImage _ _ calleeSame
      apply Mirrors.bind (mirrors_wireOf name)
      intro third thirdImage caller callerImage toThird toThirdImage callerSame
      apply Mirrors.bind (ih (pin :: seen))
      intro last final others otherImages toLast toFinal othersSame
      apply Mirrors.pure
      refine .cons ⟨?_, ?_⟩ othersSame
      · exact callerSame.of_extends toLast.extension toFinal.extension
      · exact calleeSame.of_extends (toThird.trans toLast).extension
          (toThirdImage.trans toFinal).extension

theorem mirrors_addInstance (line place : Nat) (args : List String) :
    Mirrors first second (addInstance line args) (addInstance place args)
      fun _ _ _ _ => True := by
  unfold addInstance
  split
  · exact Mirrors.refuse
  · apply Mirrors.bind (mirrors_pairings line place [] _)
    intro middle center pairings images _ _ same
    exact mirrors_updateModule _ _ (fun _ _ alike => alike.addInstance ⟨rfl, same, .nil, .nil⟩)
      fun _ => rfl

theorem mirrors_addBuffer (line place : Nat) (source target : String) :
    Mirrors first second (addBuffer line source target) (addBuffer place source target)
      fun _ _ _ _ => True := by
  apply Mirrors.bind (mirrors_wireOf source)
  intro middle center sourceWire sourceImage _ _ sourceSame
  apply Mirrors.bind (mirrors_wireOf target)
  intro last final targetWire targetImage toLast toFinal targetSame
  have matched := sourceSame.of_extends toLast.extension toFinal.extension
  exact mirrors_appendGate line place ⟨rfl, .cons matched .nil, targetSame⟩

theorem mirrors_addNames (line place : Nat) (args : List String) :
    Mirrors first second (addNames line args) (addNames place args) fun _ _ _ _ => True := by
  unfold addNames
  split
  · apply Mirrors.bind (mirrors_addBuffer line place _ _)
    exact fun _ _ _ _ _ _ _ => mirrors_expectCover _
  · split
    · apply Mirrors.bind (mirrors_openModule line place)
      intro middle center _ _ _ _ _
      split
      · exact mirrors_expectCover _
      · exact Mirrors.pure trivial
    · exact Mirrors.refuse
  · exact Mirrors.refuse

theorem mirrors_addConnection (line place : Nat) (args : List String) :
    Mirrors first second (addConnection line args) (addConnection place args)
      fun _ _ _ _ => True := by
  unfold addConnection
  split
  · exact mirrors_addBuffer line place _ _
  · exact Mirrors.refuse

theorem mirrors_takeCover (line place : Nat) (cover : String) :
    Mirrors first second (takeCover line cover) (takeCover place cover) fun _ _ _ _ => True := by
  apply Mirrors.bind Mirrors.get
  rintro _ _ first second - - ⟨rfl, rfl, rfl, rfl⟩
  intro alike
  have same := alike.cover
  revert alike
  by_cases expected : second.cover = some cover
  · rw [if_pos expected, if_pos (same.trans expected)]
    exact mirrors_expectCover none
  · rw [if_neg expected, if_neg fun isExpected => expected (same.symm.trans isExpected)]
    exact Mirrors.refuse

/-- Within a model no other one begins. -/
theorem mirrors_beginModel (line place : Nat) (isOpen : first.current.isSome) (args : List String) :
    Mirrors first second (beginModel line args) (beginModel place args) fun _ _ _ _ => True := by
  apply Mirrors.bind Mirrors.get
  rintro _ _ first second - - ⟨rfl, rfl, rfl, rfl⟩
  intro alike
  obtain ⟨module, isModule⟩ := Option.isSome_iff_exists.1 isOpen
  have same := alike.current
  revert alike
  rw [isModule] at same ⊢
  cases isImage : second.current with
  | none =>
    rw [isImage] at same
    cases same
  | some image => exact Mirrors.refuse

theorem mirrors_takeKeyword (line place : Nat) {keyword : String} (isOpen : first.current.isSome)
    (isInner : keyword ≠ ".end") (args : List String) :
    Mirrors first second (takeKeyword line keyword args) (takeKeyword place keyword args)
      fun _ _ _ _ => True := by
  unfold takeKeyword
  split
  · exact mirrors_beginModel line place isOpen args
  · exact mirrors_declarePorts line place (fun _ _ _ _ _ _ same => same.addInput) (fun _ _ => rfl)
      args
  · exact mirrors_declarePorts line place (fun _ _ _ _ _ _ same => same.addOutput) (fun _ _ => rfl)
      args
  · exact mirrors_addGate line place args
  · exact mirrors_addInstance line place args
  · exact mirrors_addNames line place args
  · exact mirrors_addConnection line place args
  · exact absurd rfl isInner
  · exact Mirrors.refuse

/-- A record within a model is refused by both readers, or taken by both. -/
theorem mirrors_take {record image : Record} (isOpen : first.current.isSome)
    (isInner : record.keyword ≠ ".end") (same : record.words = image.words) :
    Mirrors first second (take record) (take image) fun _ _ _ _ => True := by
  obtain ⟨line, keyword, args⟩ := record
  obtain ⟨place, _, _⟩ := image
  cases same
  apply Mirrors.bind (mirrors_setLine line place)
  intro middle center _ _ toMiddle _ _
  cases isKeyword : hasKeyword ⟨line, keyword, args⟩ with
  | true =>
    have imageKeyword : hasKeyword ⟨place, keyword, args⟩ = true := isKeyword
    rw [if_pos rfl, if_pos imageKeyword]
    apply Mirrors.bind (mirrors_expectCover none)
    intro last final _ _ toLast _ _
    exact mirrors_takeKeyword line place ((toMiddle.trans toLast).isSome isOpen) isInner args
  | false =>
    have imageCover : hasKeyword ⟨place, keyword, args⟩ = false := isKeyword
    rw [if_neg Bool.false_ne_true, if_neg (by rw [imageCover]; exact Bool.false_ne_true)]
    exact mirrors_takeCover line place _

/-- Records within a model are refused by both readers, or taken by both. -/
theorem mirrors_takeAll {records images : List Record} (isOpen : first.current.isSome)
    (isInner : ∀ record ∈ records, record.keyword ≠ ".end")
    (same : records.map Record.words = images.map Record.words) :
    Mirrors first second (records.forM take) (images.forM take) fun _ _ _ _ => True := by
  induction records generalizing first second images with
  | nil =>
    obtain rfl := List.map_eq_nil_iff.1 same.symm
    exact Mirrors.pure trivial
  | cons record rest ih =>
    obtain ⟨image, copies, rfl, sameHead, sameRest⟩ := List.map_eq_cons_iff.1 same.symm
    obtain ⟨headInner, restInner⟩ := List.forall_mem_cons.1 isInner
    apply Mirrors.bind (mirrors_take isOpen headInner sameHead.symm)
    exact fun _ _ _ _ toMiddle _ _ => ih (toMiddle.isSome isOpen) restInner sameRest.symm

end Netlist.Blif.Reader
