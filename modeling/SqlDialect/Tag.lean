/-!
# Node kinds

The closed vocabulary of kinds that a node of a syntax tree can have.  A kind is written by its name
in every form of a tree, so `Tag.name` and `Tag.ofName?` are inverse to each other.

Three groups of kinds matter to what follows: the bracketed containers (`Tag.isParens`), whose
brackets are implied and not part of any text; the comments (`Tag.isComment`); and the tokens
(`Tag.isToken`), the kinds whose text comes from the script.
-/

namespace SqlDialect

/-- The kind of a syntax tree node. -/
inductive Tag where
  | root
  | statement
  | clause
  | setOperatorClause
  | insertClause
  | beginEndBlock
  | tryBlock
  | catchBlock
  | batchSeparator
  | caseStatement
  | caseInput
  | caseWhen
  | caseThen
  | caseElse
  | ifStatement
  | elseClause
  | whileLoop
  | ddlAsBlock
  | ddlProceduralBlock
  | ddlOtherBlock
  | ddlDeclareBlock
  | ddlParens
  | ddlDetailParens
  | ddlReturns
  | ddlWithClause
  | cursorDeclaration
  | cursorForBlock
  | cursorForOptions
  | booleanExpression
  | beginTransaction
  | saveTransaction
  | commitTransaction
  | rollbackTransaction
  | containerOpen
  | containerMultiStatement
  | containerSingleStatement
  | containerGeneralContent
  | containerClose
  | selectionTarget
  | selectionTargetParens
  | expressionParens
  | functionParens
  | inParens
  | mergeClause
  | mergeTarget
  | mergeUsing
  | mergeCondition
  | mergeWhen
  | mergeThen
  | mergeAction
  | joinOnSection
  | cteWithClause
  | cteAlias
  | cteAsBlock
  | triggerCondition
  | permissionsBlock
  | permissionsDetail
  | permissionsTarget
  | permissionsRecipient
  | compoundKeyword
  | betweenCondition
  | betweenLowerBound
  | betweenUpperBound
  | andOperator
  | orOperator
  | alphaOperator
  | otherOperator
  | equalsSign
  | comma
  | period
  | semicolon
  | scopeResolutionOperator
  | asterisk
  | functionKeyword
  | dataTypeKeyword
  | otherKeyword
  | pseudoName
  | whiteSpace
  | otherNode
  | commentSingleLine
  | commentSingleLineCStyle
  | commentMultiLine
  | string
  | nString
  | quotedString
  | bracketQuotedName
  | numberValue
  | monetaryValue
  | binaryValue
  | label
  deriving DecidableEq, Repr, Inhabited

namespace Tag

/-- Every kind, in the order of the vocabulary. -/
def all : List Tag :=
  [.root, .statement, .clause, .setOperatorClause, .insertClause, .beginEndBlock, .tryBlock,
    .catchBlock, .batchSeparator, .caseStatement, .caseInput, .caseWhen, .caseThen, .caseElse,
    .ifStatement, .elseClause, .whileLoop, .ddlAsBlock, .ddlProceduralBlock, .ddlOtherBlock,
    .ddlDeclareBlock, .ddlParens, .ddlDetailParens, .ddlReturns, .ddlWithClause,
    .cursorDeclaration, .cursorForBlock, .cursorForOptions, .booleanExpression, .beginTransaction,
    .saveTransaction, .commitTransaction, .rollbackTransaction, .containerOpen,
    .containerMultiStatement, .containerSingleStatement, .containerGeneralContent,
    .containerClose, .selectionTarget, .selectionTargetParens, .expressionParens, .functionParens,
    .inParens, .mergeClause, .mergeTarget, .mergeUsing, .mergeCondition, .mergeWhen, .mergeThen,
    .mergeAction, .joinOnSection, .cteWithClause, .cteAlias, .cteAsBlock, .triggerCondition,
    .permissionsBlock, .permissionsDetail, .permissionsTarget, .permissionsRecipient,
    .compoundKeyword, .betweenCondition, .betweenLowerBound, .betweenUpperBound, .andOperator,
    .orOperator, .alphaOperator, .otherOperator, .equalsSign, .comma, .period, .semicolon,
    .scopeResolutionOperator, .asterisk, .functionKeyword, .dataTypeKeyword, .otherKeyword,
    .pseudoName, .whiteSpace, .otherNode, .commentSingleLine, .commentSingleLineCStyle,
    .commentMultiLine, .string, .nString, .quotedString, .bracketQuotedName, .numberValue,
    .monetaryValue, .binaryValue, .label]

/-- The name of a kind. -/
def name : Tag → String
  | .root => "Root"
  | .statement => "Statement"
  | .clause => "Clause"
  | .setOperatorClause => "SetOperatorClause"
  | .insertClause => "InsertClause"
  | .beginEndBlock => "BeginEndBlock"
  | .tryBlock => "TryBlock"
  | .catchBlock => "CatchBlock"
  | .batchSeparator => "BatchSeparator"
  | .caseStatement => "CaseStatement"
  | .caseInput => "CaseInput"
  | .caseWhen => "CaseWhen"
  | .caseThen => "CaseThen"
  | .caseElse => "CaseElse"
  | .ifStatement => "IfStatement"
  | .elseClause => "ElseClause"
  | .whileLoop => "WhileLoop"
  | .ddlAsBlock => "DdlAsBlock"
  | .ddlProceduralBlock => "DdlProceduralBlock"
  | .ddlOtherBlock => "DdlOtherBlock"
  | .ddlDeclareBlock => "DdlDeclareBlock"
  | .ddlParens => "DdlParens"
  | .ddlDetailParens => "DdlDetailParens"
  | .ddlReturns => "DdlReturns"
  | .ddlWithClause => "DdlWithClause"
  | .cursorDeclaration => "CursorDeclaration"
  | .cursorForBlock => "CursorForBlock"
  | .cursorForOptions => "CursorForOptions"
  | .booleanExpression => "BooleanExpression"
  | .beginTransaction => "BeginTransaction"
  | .saveTransaction => "SaveTransaction"
  | .commitTransaction => "CommitTransaction"
  | .rollbackTransaction => "RollbackTransaction"
  | .containerOpen => "ContainerOpen"
  | .containerMultiStatement => "ContainerMultiStatement"
  | .containerSingleStatement => "ContainerSingleStatement"
  | .containerGeneralContent => "ContainerGeneralContent"
  | .containerClose => "ContainerClose"
  | .selectionTarget => "SelectionTarget"
  | .selectionTargetParens => "SelectionTargetParens"
  | .expressionParens => "ExpressionParens"
  | .functionParens => "FunctionParens"
  | .inParens => "InParens"
  | .mergeClause => "MergeClause"
  | .mergeTarget => "MergeTarget"
  | .mergeUsing => "MergeUsing"
  | .mergeCondition => "MergeCondition"
  | .mergeWhen => "MergeWhen"
  | .mergeThen => "MergeThen"
  | .mergeAction => "MergeAction"
  | .joinOnSection => "JoinOnSection"
  | .cteWithClause => "CteWithClause"
  | .cteAlias => "CteAlias"
  | .cteAsBlock => "CteAsBlock"
  | .triggerCondition => "TriggerCondition"
  | .permissionsBlock => "PermissionsBlock"
  | .permissionsDetail => "PermissionsDetail"
  | .permissionsTarget => "PermissionsTarget"
  | .permissionsRecipient => "PermissionsRecipient"
  | .compoundKeyword => "CompoundKeyword"
  | .betweenCondition => "BetweenCondition"
  | .betweenLowerBound => "BetweenLowerBound"
  | .betweenUpperBound => "BetweenUpperBound"
  | .andOperator => "AndOperator"
  | .orOperator => "OrOperator"
  | .alphaOperator => "AlphaOperator"
  | .otherOperator => "OtherOperator"
  | .equalsSign => "EqualsSign"
  | .comma => "Comma"
  | .period => "Period"
  | .semicolon => "Semicolon"
  | .scopeResolutionOperator => "ScopeResolutionOperator"
  | .asterisk => "Asterisk"
  | .functionKeyword => "FunctionKeyword"
  | .dataTypeKeyword => "DataTypeKeyword"
  | .otherKeyword => "OtherKeyword"
  | .pseudoName => "PseudoName"
  | .whiteSpace => "WhiteSpace"
  | .otherNode => "OtherNode"
  | .commentSingleLine => "CommentSingleLine"
  | .commentSingleLineCStyle => "CommentSingleLineCStyle"
  | .commentMultiLine => "CommentMultiLine"
  | .string => "String"
  | .nString => "NString"
  | .quotedString => "QuotedString"
  | .bracketQuotedName => "BracketQuotedName"
  | .numberValue => "NumberValue"
  | .monetaryValue => "MonetaryValue"
  | .binaryValue => "BinaryValue"
  | .label => "Label"

/-- The kind of a name. -/
def ofName? (name : String) : Option Tag :=
  all.find? (·.name == name)

theorem mem_all (tag : Tag) : tag ∈ all := by
  cases tag <;> decide

theorem ofName?_name (tag : Tag) : ofName? tag.name = some tag := by
  have names : ∀ tag ∈ all, ofName? tag.name = some tag := by decide +kernel
  exact names tag tag.mem_all

/-- What is said of a name that is not that of a kind. -/
def unknownMessage (name : String) : String :=
  "Unknown tag: '" ++ name ++ "'"

/-- The place of a kind in the vocabulary. -/
def index (tag : Tag) : Nat :=
  all.idxOf tag

/-- Containers whose brackets are implied by their kind. -/
def isParens : Tag → Bool
  | .expressionParens | .functionParens | .inParens | .ddlParens | .ddlDetailParens
  | .selectionTargetParens => true
  | _ => false

def isComment : Tag → Bool
  | .commentSingleLine | .commentSingleLineCStyle | .commentMultiLine => true
  | _ => false

/-- Kinds that carry text of the script, comments among them. -/
def isToken : Tag → Bool
  | .andOperator | .orOperator | .alphaOperator | .otherOperator | .equalsSign | .comma | .period
  | .semicolon | .scopeResolutionOperator | .asterisk | .functionKeyword | .dataTypeKeyword
  | .otherKeyword | .pseudoName | .whiteSpace | .otherNode | .string | .nString | .quotedString
  | .bracketQuotedName | .numberValue | .monetaryValue | .binaryValue | .label => true
  | tag => tag.isComment

/-- Brackets that stand directly after a name, as those of a call or of a column list. -/
def hugsName : Tag → Bool
  | .functionParens | .ddlParens | .ddlDetailParens => true
  | _ => false

end Tag

end SqlDialect
