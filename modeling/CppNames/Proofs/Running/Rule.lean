import CppNames.Grammar.Parse
import CppNames.Proofs.Running.Declaration

namespace CppNames
namespace Grammar

/-!
# The productions of the grammar

`Rule` names the productions with what they are given, so that something can be said of all of
them.  Each runs alike over any two collections of recursive productions that do, provided that
no reason to stop is asked away.
-/

/-! ## The recursion of the parser

The productions of one level are written over those of the level below.  A level can be spent
for each token of the text and two more, so the lowest level is not reached where there are that
many of them.  Where reaching it is admitted, any number of levels will do. -/

section Recursion

/-- The recursive productions written over given ones. -/
def Productions.over (g : Productions) : Productions where
  typeId := Grammar.typeId g
  assignment := assignmentExpression g
  expression := commaExpression g
  cast := castExpression g
  binary := binaryExpression g
  initializers := initializerList g
  parameter := parameterDeclaration g
  declaration := Grammar.declaration g
  statement := Grammar.statement g

variable {terms : Terms} {levels spare : Nat} {state : State} {g twin : Productions}

/-- A production of a level recurs into the level below. -/
theorem Lasting.over (lasting : Lasting terms levels g twin) :
    Lasting terms (levels + 1) g.over twin.over where
  typeId ready := typeId_runs lasting ready.lower
  assignment ready := assignmentExpression_runs lasting ready.lower
  expression ready := commaExpression_runs lasting ready.lower
  cast ready := castExpression_runs lasting ready.lower
  binary minimum _ _ ready := binaryExpression_runs lasting ready.lower minimum
  initializers ready pays := initializerList_runs lasting ready.lower pays
  parameter ready := parameterDeclaration_runs lasting ready.lower
  declaration place _ _ ready := declaration_runs lasting ready.lower place
  statement ready := statement_runs lasting ready.lower

/-- The lowest level is reached only where this is admitted. -/
theorem Ready.endless (ready : Ready terms 0 (spare + 1) state) : terms.may .endless :=
  ready.levels.resolve_right fun enough => by omega

theorem lasting_exhausted (terms : Terms) : Lasting terms 0 .exhausted .exhausted where
  typeId ready := .throw ready.endless
  assignment ready := .throw ready.endless
  expression ready := .throw ready.endless
  cast ready := .throw ready.endless
  binary _ _ _ ready := .throw ready.endless
  initializers ready _ := .throw ready.endless
  parameter ready := .throw ready.endless
  declaration _ _ _ ready := .throw ready.endless
  statement ready := .throw ready.endless

theorem lasting_productions (terms : Terms) (level : Nat) :
    Lasting terms level (productions level) (productions level) := by
  induction level with
  | zero => exact lasting_exhausted terms
  | succ level ih => exact ih.over

end Recursion

/-! ## Every production -/

/-- The productions of the grammar, by the type of their answers. -/
inductive Rule : Type → Type where
  | templateArgument : Rule Encoded
  | templateArgumentList : Rule NameParts
  | templateArguments : Rule NameParts
  | identifierComponent (inType : Bool) : Rule NameComponent
  | destructorComponent : Rule NameComponent
  | callOperator : Rule (List Tree.Plain × String)
  | subscriptOperator : Rule (List Tree.Plain × String)
  | allocationOperator : Rule (List Tree.Plain × String)
  | operatorSuffix : Rule (List Tree.Plain × String)
  | operatorComponent : Rule NameComponent
  | nameComponent (inType : Bool) : Rule NameComponent
  | name (inType : Bool) : Rule Encoded
  | arguments : Rule Tree.Plain
  | callCast (type : Tree.Plain) (encoding : Encoding) : Rule Tree.Plain
  | parenthesized : Rule Tree.Plain
  | typeidOperand : Rule Tree.Plain
  | builtinCast : Rule Tree.Plain
  | nameOrCast : Rule Tree.Plain
  | primary : Rule Tree.Plain
  | postfixExpression : Rule Tree.Plain
  | prefixCast : Rule Tree.Plain
  | unary : Rule Tree.Plain
  | sizeofOperand : Rule Tree.Plain
  | newObject : Rule Tree.Plain
  | deleteObject : Rule Tree.Plain
  | castExpression : Rule Tree.Plain
  | binaryExpression (minimum : Nat) : Rule Tree.Plain
  | conditionalExpression : Rule Tree.Plain
  | throwExpression (keyword : Tree.Plain) : Rule Tree.Plain
  | assignmentExpression : Rule Tree.Plain
  | commaExpression : Rule Tree.Plain
  | pointers (base : Encoding) : Rule (List Tree.Plain × Encoding)
  | declaredName (form : DeclaratorForm) : Rule (Option Encoded)
  | parameterItems : Rule ParameterItems
  | parameterClause : Rule ParameterClause
  | thrownTypes : Rule (List Tree.Plain)
  | exceptionSpecification : Rule (List Tree.Plain)
  | functionSuffix : Rule (List Tree.Plain × Suffix)
  | arraySuffix : Rule (List Tree.Plain × Suffix)
  | initializerArguments : Rule (List Tree.Plain)
  | suffixes (form : DeclaratorForm) : Rule Suffixes
  | initializerItems : Rule (List Tree.Plain)
  | initializerList : Rule Tree.Plain
  | bitField (form : DeclaratorForm) (isFunction : Bool) : Rule (List Tree.Plain)
  | initializer (form : DeclaratorForm) : Rule (List Tree.Plain)
  | declarator (base : Encoding) (form : DeclaratorForm) : Rule Declared
  | declarationList (place : Place) : Rule (List Tree.Plain)
  | braced (construct : Construct) (place : Place) : Rule Tree.Plain
  | baseClause : Rule Tree.Plain
  | className (headed : Bool) : Rule (Tree.Plain × Encoding)
  | classSpecifier : Rule Encoded
  | enumerator : Rule Tree.Plain
  | enumerators : Rule (List Tree.Plain)
  | enumBody : Rule Tree.Plain
  | typeNameEncoding (named : Option Tree.Plain) : Rule Encoding
  | enumSpecifier : Rule Encoded
  | specifiers (place : Place) : Rule Specifiers
  | requiredType (place : Place) : Rule Specifiers
  | parameterDeclaration : Rule Encoded
  | typeId : Rule Encoded
  | usingForm : Rule Tree.Plain
  | typedefDeclarators (base : Encoding) : Rule (List Tree.Plain)
  | typedefDeclaration : Rule Tree.Plain
  | statements : Rule (List Tree.Plain)
  | block : Rule Tree.Plain
  | memberInitializer : Rule Tree.Plain
  | memberInitializers : Rule (List Tree.Plain)
  | moreDeclarators (base : Encoding) (form : DeclaratorForm) (first : Tree.Plain) :
    Rule (List Tree.Plain)
  | simpleDeclaration (place : Place) : Rule Tree.Plain
  | typeParameterDefault : Rule (List Tree.Plain)
  | typeParameter : Rule Tree.Plain
  | templateParameter : Rule Tree.Plain
  | templateParameters : Rule (List Tree.Plain)
  | templateDeclaration (place : Place) : Rule Tree.Plain
  | namespaceDeclaration : Rule Tree.Plain
  | linkageDeclaration (place : Place) : Rule Tree.Plain
  | accessDeclaration : Rule Tree.Plain
  | declaration (place : Place) : Rule Tree.Plain
  | condition : Rule (List Tree.Plain)
  | alternative : Rule (List Tree.Plain)
  | ifStatement : Rule Tree.Plain
  | whileStatement : Rule Tree.Plain
  | doStatement : Rule Tree.Plain
  | optionalExpression (closing : Token.Kind) : Rule Tree.Plain
  | forStatement : Rule Tree.Plain
  | returnStatement : Rule Tree.Plain
  | jumpStatement (construct : Construct) : Rule Tree.Plain
  | expressionStatement : Rule Tree.Plain
  | plainStatement (next : Token.Kind) : Rule Tree.Plain
  | statement : Rule Tree.Plain

variable {α : Type}

/-- The production of a rule over the recursive ones. -/
def Rule.production (g : Productions) : Rule α → Production α
  | .templateArgument => Grammar.templateArgument g
  | .templateArgumentList => Grammar.templateArgumentList g
  | .templateArguments => Grammar.templateArguments g
  | .identifierComponent inType => Grammar.identifierComponent g inType
  | .destructorComponent => Grammar.destructorComponent
  | .callOperator => bracketOperator .closeParen ")"
  | .subscriptOperator => bracketOperator .closeBracket "]"
  | .allocationOperator => Grammar.allocationOperator
  | .operatorSuffix => Grammar.operatorSuffix g
  | .operatorComponent => Grammar.operatorComponent g
  | .nameComponent inType => Grammar.nameComponent g inType
  | .name inType => Grammar.name g inType
  | .arguments => Grammar.arguments g
  | .callCast type encoding => Grammar.callCast g type encoding
  | .parenthesized => Grammar.parenthesized g
  | .typeidOperand => Grammar.typeidOperand g
  | .builtinCast => Grammar.builtinCast g
  | .nameOrCast => Grammar.nameOrCast g
  | .primary => Grammar.primary g
  | .postfixExpression => Grammar.postfixExpression g
  | .prefixCast => Grammar.prefixCast g
  | .unary => Grammar.unary g
  | .sizeofOperand => Grammar.sizeofOperand g
  | .newObject => Grammar.newObject g
  | .deleteObject => Grammar.deleteObject g
  | .castExpression => Grammar.castExpression g
  | .binaryExpression minimum => Grammar.binaryExpression g minimum
  | .conditionalExpression => Grammar.conditionalExpression g
  | .throwExpression keyword => Grammar.throwExpression g keyword
  | .assignmentExpression => Grammar.assignmentExpression g
  | .commaExpression => Grammar.commaExpression g
  | .pointers base => Grammar.pointers base
  | .declaredName form => Grammar.declaredName g form
  | .parameterItems => Grammar.parameterItems g
  | .parameterClause => Grammar.parameterClause g
  | .thrownTypes => Grammar.thrownTypes g
  | .exceptionSpecification => Grammar.exceptionSpecification g
  | .functionSuffix => Grammar.functionSuffix g
  | .arraySuffix => Grammar.arraySuffix g
  | .initializerArguments => Grammar.initializerArguments g
  | .suffixes form => Grammar.suffixes g form
  | .initializerItems => Grammar.initializerItems g
  | .initializerList => Grammar.initializerList g
  | .bitField form isFunction => Grammar.bitField g form isFunction
  | .initializer form => Grammar.initializer g form
  | .declarator base form => Grammar.declarator g base form
  | .declarationList place => Grammar.declarationList g place
  | .braced construct place => Grammar.braced g construct place
  | .baseClause => Grammar.baseClause g
  | .className headed => Grammar.className g headed
  | .classSpecifier => Grammar.classSpecifier g
  | .enumerator => Grammar.enumerator g
  | .enumerators => Grammar.enumerators g
  | .enumBody => Grammar.enumBody g
  | .typeNameEncoding named => Grammar.typeNameEncoding named
  | .enumSpecifier => Grammar.enumSpecifier g
  | .specifiers place => Grammar.specifiers g place
  | .requiredType place => Grammar.requiredType g place
  | .parameterDeclaration => Grammar.parameterDeclaration g
  | .typeId => Grammar.typeId g
  | .usingForm => Grammar.usingForm g
  | .typedefDeclarators base => Grammar.typedefDeclarators g base
  | .typedefDeclaration => Grammar.typedefDeclaration g
  | .statements => Grammar.statements g
  | .block => Grammar.block g
  | .memberInitializer => Grammar.memberInitializer g
  | .memberInitializers => Grammar.memberInitializers g
  | .moreDeclarators base form first => Grammar.moreDeclarators g base form first
  | .simpleDeclaration place => Grammar.simpleDeclaration g place
  | .typeParameterDefault => Grammar.typeParameterDefault g
  | .typeParameter => Grammar.typeParameter g
  | .templateParameter => Grammar.templateParameter g
  | .templateParameters => Grammar.templateParameters g
  | .templateDeclaration place => Grammar.templateDeclaration g place
  | .namespaceDeclaration => Grammar.namespaceDeclaration g
  | .linkageDeclaration place => Grammar.linkageDeclaration g place
  | .accessDeclaration => Grammar.accessDeclaration
  | .declaration place => Grammar.declaration g place
  | .condition => Grammar.condition g
  | .alternative => Grammar.alternative g
  | .ifStatement => Grammar.ifStatement g
  | .whileStatement => Grammar.whileStatement g
  | .doStatement => Grammar.doStatement g
  | .optionalExpression closing => Grammar.optionalExpression g closing
  | .forStatement => Grammar.forStatement g
  | .returnStatement => Grammar.returnStatement g
  | .jumpStatement construct => Grammar.jumpStatement construct
  | .expressionStatement => Grammar.expressionStatement g
  | .plainStatement next => Grammar.plainStatement g next
  | .statement => Grammar.statement g

variable {terms : Terms} {levels : Nat} {state : State} {g twin : Productions}

theorem Rule.runs (lasting : Lasting terms levels g twin) (all : ∀ stop, terms.may stop)
    (ready : Ready terms levels 2 state) (rule : Rule α) :
    Runs terms state (rule.production g) (rule.production twin) nothing anything := by
  have pays : Pays terms state 0 := .inr ⟨rfl, all _⟩
  cases rule with
  | templateArgument => exact (templateArgument_runs lasting ready).any
  | templateArgumentList => exact (templateArgumentList_runs lasting ready).any
  | templateArguments => exact (templateArguments_runs lasting ready).any
  | identifierComponent inType => exact (identifierComponent_runs lasting ready pays inType).any
  | destructorComponent => exact (destructorComponent_runs ready).any
  | callOperator => exact (bracketOperator_runs ready rfl).any
  | subscriptOperator => exact (bracketOperator_runs ready rfl).any
  | allocationOperator => exact (allocationOperator_runs ready).any
  | operatorSuffix => exact (operatorSuffix_runs lasting ready (fun _ => all _)).any
  | operatorComponent => exact (operatorComponent_runs lasting ready pays (fun _ => all _)).any
  | nameComponent inType => exact (nameComponent_runs lasting ready inType).any
  | name inType => exact (name_runs lasting ready inType).any
  | arguments => exact (arguments_runs lasting ready).any
  | callCast type encoding => exact (callCast_runs lasting ready type encoding).any
  | parenthesized => exact (parenthesized_runs lasting ready pays).any
  | typeidOperand => exact (typeidOperand_runs lasting ready).any
  | builtinCast => exact (builtinCast_runs lasting ready).any
  | nameOrCast => exact (nameOrCast_runs lasting ready).any
  | primary => exact (primary_runs lasting ready).any
  | postfixExpression => exact (postfixExpression_runs lasting ready).any
  | prefixCast => exact (prefixCast_runs lasting ready pays).any
  | unary => exact (unary_runs lasting ready pays).any
  | sizeofOperand => exact (sizeofOperand_runs lasting ready pays).any
  | newObject => exact (newObject_runs lasting ready pays).any
  | deleteObject => exact (deleteObject_runs lasting ready pays).any
  | castExpression => exact (castExpression_runs lasting ready).any
  | binaryExpression minimum => exact (binaryExpression_runs lasting ready minimum).any
  | conditionalExpression => exact (conditionalExpression_runs lasting ready).any
  | throwExpression keyword => exact (throwExpression_runs lasting ready keyword).any
  | assignmentExpression => exact (assignmentExpression_runs lasting ready).any
  | commaExpression => exact (commaExpression_runs lasting ready).any
  | pointers base => exact (pointers_runs ready base).any
  | declaredName form => exact (declaredName_runs lasting ready form).any
  | parameterItems => exact (parameterItems_runs lasting ready).any
  | parameterClause => exact (parameterClause_runs lasting ready).any
  | thrownTypes => exact (thrownTypes_runs lasting ready).any
  | exceptionSpecification => exact (exceptionSpecification_runs lasting ready).any
  | functionSuffix => exact (functionSuffix_runs lasting ready).any
  | arraySuffix => exact (arraySuffix_runs lasting ready pays).any
  | initializerArguments => exact (initializerArguments_runs lasting ready pays).any
  | suffixes form => exact (suffixes_runs lasting ready form).any
  | initializerItems => exact (initializerItems_runs lasting ready).any
  | initializerList => exact (initializerList_runs lasting ready pays).any
  | bitField form isFunction => exact (bitField_runs lasting ready form isFunction).any
  | initializer form => exact (initializer_runs lasting ready form).any
  | declarator base form => exact (declarator_runs lasting ready base form).any
  | declarationList place => exact (declarationList_runs lasting ready place).any
  | braced construct place => exact (braced_runs lasting ready construct place).any
  | baseClause => exact (baseClause_runs lasting ready).any
  | className headed => exact (className_runs lasting ready headed).any
  | classSpecifier => exact (classSpecifier_runs lasting ready pays).any
  | enumerator => exact (enumerator_runs lasting ready).any
  | enumerators => exact (enumerators_runs lasting ready).any
  | enumBody => exact (enumBody_runs lasting ready).any
  | typeNameEncoding named => exact (typeNameEncoding_runs named).any
  | enumSpecifier => exact (enumSpecifier_runs lasting ready pays).any
  | specifiers place => exact (specifiers_runs lasting ready place).any
  | requiredType place => exact (requiredType_runs lasting ready place).any
  | parameterDeclaration => exact (parameterDeclaration_runs lasting ready).any
  | typeId => exact (typeId_runs lasting ready).any
  | usingForm => exact (usingForm_runs lasting ready).any
  | typedefDeclarators base => exact (typedefDeclarators_runs lasting ready base).any
  | typedefDeclaration => exact (typedefDeclaration_runs lasting ready).any
  | statements => exact (statements_runs lasting ready).any
  | block => exact (block_runs lasting ready).any
  | memberInitializer => exact (memberInitializer_runs lasting ready).any
  | memberInitializers => exact (memberInitializers_runs lasting ready).any
  | moreDeclarators base form first => exact (moreDeclarators_runs lasting ready base form first).any
  | simpleDeclaration place => exact (simpleDeclaration_runs lasting ready place).any
  | typeParameterDefault => exact (typeParameterDefault_runs lasting ready).any
  | typeParameter => exact (typeParameter_runs lasting ready).any
  | templateParameter => exact (templateParameter_runs lasting ready).any
  | templateParameters => exact (templateParameters_runs lasting ready).any
  | templateDeclaration place => exact (templateDeclaration_runs lasting ready place).any
  | namespaceDeclaration => exact (namespaceDeclaration_runs lasting ready).any
  | linkageDeclaration place => exact (linkageDeclaration_runs lasting ready pays place).any
  | accessDeclaration => exact (accessDeclaration_runs ready).any
  | declaration place => exact (declaration_runs lasting ready place).any
  | condition => exact (condition_runs lasting ready).any
  | alternative => exact (alternative_runs lasting ready).any
  | ifStatement => exact (ifStatement_runs lasting ready).any
  | whileStatement => exact (whileStatement_runs lasting ready).any
  | doStatement => exact (doStatement_runs lasting ready pays).any
  | optionalExpression closing => exact (optionalExpression_runs lasting ready closing).any
  | forStatement => exact (forStatement_runs lasting ready).any
  | returnStatement => exact (returnStatement_runs lasting ready).any
  | jumpStatement construct => exact (jumpStatement_runs ready construct).any
  | expressionStatement => exact (expressionStatement_runs lasting ready).any
  | plainStatement next => exact (plainStatement_runs lasting ready next).any
  | statement => exact (statement_runs lasting ready).any

end Grammar
end CppNames
