import Mathlib.Data.List.Basic

/-!
# The opcodes of the bytecode

The table of quickjs-opcode.h in its order, with the opcodes of SHORT_OPCODES and CONFIG_BIGNUM.
The temporary opcodes are not in it: no final bytecode has them, and short_opcode_info skips
them.
-/
namespace IoQuickJS

inductive OPCodeFormat where
  | none | noneInt | noneLoc | noneArg | noneVarRef | u8 | i8 | loc8 | const8 | label8 | u16
  | i16 | label16 | npop | npopx | npopU16 | loc | arg | varRef | u32 | i32 | const | label
  | atom | atomU8 | atomU16 | atomLabelU8 | atomLabelU16 | labelU16
  deriving DecidableEq, Repr

inductive OPCodeEnum where
  | opInvalid | opPushI32 | opPushConst | opFclosure | opPushAtomValue | opPrivateSymbol
  | opUndefined | opNull | opPushThis | opPushFalse | opPushTrue | opObject | opSpecialObject
  | opRest | opDrop | opNip | opNip1 | opDup | opDup1 | opDup2 | opDup3 | opInsert2 | opInsert3
  | opInsert4 | opPerm3 | opPerm4 | opPerm5 | opSwap | opSwap2 | opRot3l | opRot3r | opRot4l
  | opRot5l | opCallConstructor | opCall | opTailCall | opCallMethod | opTailCallMethod
  | opArrayFrom | opApply | opReturn | opReturnUndef | opCheckCtorReturn | opCheckCtor
  | opCheckBrand | opAddBrand | opReturnAsync | opThrow | opThrowVar | opEval | opApplyEval
  | opRegexp | opGetSuper | opImport | opCheckVar | opGetVarUndef | opGetVar | opPutVar
  | opPutVarInit | opPutVarStrict | opGetRefValue | opPutRefValue | opDefineVar
  | opCheckDefineVar | opDefineFunc | opGetField | opGetField2 | opPutField | opGetPrivateField
  | opPutPrivateField | opDefinePrivateField | opGetArrayEl | opGetArrayEl2 | opPutArrayEl
  | opGetSuperValue | opPutSuperValue | opDefineField | opSetName | opSetNameComputed
  | opSetProto | opSetHomeObject | opDefineArrayEl | opAppend | opCopyDataProperties
  | opDefineMethod | opDefineMethodComputed | opDefineClass | opDefineClassComputed | opGetLoc
  | opPutLoc | opSetLoc | opGetArg | opPutArg | opSetArg | opGetVarRef | opPutVarRef
  | opSetVarRef | opSetLocUninitialized | opGetLocCheck | opPutLocCheck | opPutLocCheckInit
  | opGetVarRefCheck | opPutVarRefCheck | opPutVarRefCheckInit | opCloseLoc | opIfFalse
  | opIfTrue | opGoto | opCatch | opGosub | opRet | opToObject | opToPropkey | opToPropkey2
  | opWithGetVar | opWithPutVar | opWithDeleteVar | opWithMakeRef | opWithGetRef
  | opWithGetRefUndef | opMakeLocRef | opMakeArgRef | opMakeVarRefRef | opMakeVarRef
  | opForInStart | opForOfStart | opForAwaitOfStart | opForInNext | opForOfNext
  | opForAwaitOfNext | opIteratorGetValueDone | opIteratorClose | opIteratorCloseReturn
  | opAsyncIteratorClose | opAsyncIteratorNext | opAsyncIteratorGet | opInitialYield | opYield
  | opYieldStar | opAsyncYieldStar | opAwait | opNeg | opPlus | opDec | opInc | opPostDec
  | opPostInc | opDecLoc | opIncLoc | opAddLoc | opNot | opLnot | opTypeof | opDelete
  | opDeleteVar | opMul | opDiv | opMod | opAdd | opSub | opPow | opShl | opSar | opShr | opLt
  | opLte | opGt | opGte | opInstanceof | opIn | opEq | opNeq | opStrictEq | opStrictNeq | opAnd
  | opXor | opOr | opIsUndefinedOrNull | opMulPow10 | opMathMod | opNop | opPushMinus1 | opPush0
  | opPush1 | opPush2 | opPush3 | opPush4 | opPush5 | opPush6 | opPush7 | opPushI8 | opPushI16
  | opPushConst8 | opFclosure8 | opPushEmptyString | opGetLoc8 | opPutLoc8 | opSetLoc8
  | opGetLoc0 | opGetLoc1 | opGetLoc2 | opGetLoc3 | opPutLoc0 | opPutLoc1 | opPutLoc2 | opPutLoc3
  | opSetLoc0 | opSetLoc1 | opSetLoc2 | opSetLoc3 | opGetArg0 | opGetArg1 | opGetArg2 | opGetArg3
  | opPutArg0 | opPutArg1 | opPutArg2 | opPutArg3 | opSetArg0 | opSetArg1 | opSetArg2 | opSetArg3
  | opGetVarRef0 | opGetVarRef1 | opGetVarRef2 | opGetVarRef3 | opPutVarRef0 | opPutVarRef1
  | opPutVarRef2 | opPutVarRef3 | opSetVarRef0 | opSetVarRef1 | opSetVarRef2 | opSetVarRef3
  | opGetLength | opIfFalse8 | opIfTrue8 | opGoto8 | opGoto16 | opCall0 | opCall1 | opCall2
  | opCall3 | opIsUndefined | opIsNull | opIsFunction
  deriving DecidableEq, Repr

structure JSOpCode where
  id : OPCodeEnum
  size : Nat
  nPop : Nat
  nPush : Nat
  fmt : OPCodeFormat
  deriving DecidableEq, Repr

def opcodeInfo : List JSOpCode := [
  ⟨.opInvalid, 1, 0, 0, .none⟩, ⟨.opPushI32, 5, 0, 1, .i32⟩, ⟨.opPushConst, 5, 0, 1, .const⟩,
  ⟨.opFclosure, 5, 0, 1, .const⟩, ⟨.opPushAtomValue, 5, 0, 1, .atom⟩,
  ⟨.opPrivateSymbol, 5, 0, 1, .atom⟩, ⟨.opUndefined, 1, 0, 1, .none⟩, ⟨.opNull, 1, 0, 1, .none⟩,
  ⟨.opPushThis, 1, 0, 1, .none⟩, ⟨.opPushFalse, 1, 0, 1, .none⟩, ⟨.opPushTrue, 1, 0, 1, .none⟩,
  ⟨.opObject, 1, 0, 1, .none⟩, ⟨.opSpecialObject, 2, 0, 1, .u8⟩, ⟨.opRest, 3, 0, 1, .u16⟩,
  ⟨.opDrop, 1, 1, 0, .none⟩, ⟨.opNip, 1, 2, 1, .none⟩, ⟨.opNip1, 1, 3, 2, .none⟩,
  ⟨.opDup, 1, 1, 2, .none⟩, ⟨.opDup1, 1, 2, 3, .none⟩, ⟨.opDup2, 1, 2, 4, .none⟩,
  ⟨.opDup3, 1, 3, 6, .none⟩, ⟨.opInsert2, 1, 2, 3, .none⟩, ⟨.opInsert3, 1, 3, 4, .none⟩,
  ⟨.opInsert4, 1, 4, 5, .none⟩, ⟨.opPerm3, 1, 3, 3, .none⟩, ⟨.opPerm4, 1, 4, 4, .none⟩,
  ⟨.opPerm5, 1, 5, 5, .none⟩, ⟨.opSwap, 1, 2, 2, .none⟩, ⟨.opSwap2, 1, 4, 4, .none⟩,
  ⟨.opRot3l, 1, 3, 3, .none⟩, ⟨.opRot3r, 1, 3, 3, .none⟩, ⟨.opRot4l, 1, 4, 4, .none⟩,
  ⟨.opRot5l, 1, 5, 5, .none⟩, ⟨.opCallConstructor, 3, 2, 1, .npop⟩, ⟨.opCall, 3, 1, 1, .npop⟩,
  ⟨.opTailCall, 3, 1, 0, .npop⟩, ⟨.opCallMethod, 3, 2, 1, .npop⟩,
  ⟨.opTailCallMethod, 3, 2, 0, .npop⟩, ⟨.opArrayFrom, 3, 0, 1, .npop⟩, ⟨.opApply, 3, 3, 1, .u16⟩,
  ⟨.opReturn, 1, 1, 0, .none⟩, ⟨.opReturnUndef, 1, 0, 0, .none⟩,
  ⟨.opCheckCtorReturn, 1, 1, 2, .none⟩, ⟨.opCheckCtor, 1, 0, 0, .none⟩,
  ⟨.opCheckBrand, 1, 2, 2, .none⟩, ⟨.opAddBrand, 1, 2, 0, .none⟩,
  ⟨.opReturnAsync, 1, 1, 0, .none⟩, ⟨.opThrow, 1, 1, 0, .none⟩, ⟨.opThrowVar, 6, 0, 0, .atomU8⟩,
  ⟨.opEval, 5, 1, 1, .npopU16⟩, ⟨.opApplyEval, 3, 2, 1, .u16⟩, ⟨.opRegexp, 1, 2, 1, .none⟩,
  ⟨.opGetSuper, 1, 1, 1, .none⟩, ⟨.opImport, 1, 1, 1, .none⟩, ⟨.opCheckVar, 5, 0, 1, .atom⟩,
  ⟨.opGetVarUndef, 5, 0, 1, .atom⟩, ⟨.opGetVar, 5, 0, 1, .atom⟩, ⟨.opPutVar, 5, 1, 0, .atom⟩,
  ⟨.opPutVarInit, 5, 1, 0, .atom⟩, ⟨.opPutVarStrict, 5, 2, 0, .atom⟩,
  ⟨.opGetRefValue, 1, 2, 3, .none⟩, ⟨.opPutRefValue, 1, 3, 0, .none⟩,
  ⟨.opDefineVar, 6, 0, 0, .atomU8⟩, ⟨.opCheckDefineVar, 6, 0, 0, .atomU8⟩,
  ⟨.opDefineFunc, 6, 1, 0, .atomU8⟩, ⟨.opGetField, 5, 1, 1, .atom⟩,
  ⟨.opGetField2, 5, 1, 2, .atom⟩, ⟨.opPutField, 5, 2, 0, .atom⟩,
  ⟨.opGetPrivateField, 1, 2, 1, .none⟩, ⟨.opPutPrivateField, 1, 3, 0, .none⟩,
  ⟨.opDefinePrivateField, 1, 3, 1, .none⟩, ⟨.opGetArrayEl, 1, 2, 1, .none⟩,
  ⟨.opGetArrayEl2, 1, 2, 2, .none⟩, ⟨.opPutArrayEl, 1, 3, 0, .none⟩,
  ⟨.opGetSuperValue, 1, 3, 1, .none⟩, ⟨.opPutSuperValue, 1, 4, 0, .none⟩,
  ⟨.opDefineField, 5, 2, 1, .atom⟩, ⟨.opSetName, 5, 1, 1, .atom⟩,
  ⟨.opSetNameComputed, 1, 2, 2, .none⟩, ⟨.opSetProto, 1, 2, 1, .none⟩,
  ⟨.opSetHomeObject, 1, 2, 2, .none⟩, ⟨.opDefineArrayEl, 1, 3, 2, .none⟩,
  ⟨.opAppend, 1, 3, 2, .none⟩, ⟨.opCopyDataProperties, 2, 3, 3, .u8⟩,
  ⟨.opDefineMethod, 6, 2, 1, .atomU8⟩, ⟨.opDefineMethodComputed, 2, 3, 1, .u8⟩,
  ⟨.opDefineClass, 6, 2, 2, .atomU8⟩, ⟨.opDefineClassComputed, 6, 3, 3, .atomU8⟩,
  ⟨.opGetLoc, 3, 0, 1, .loc⟩, ⟨.opPutLoc, 3, 1, 0, .loc⟩, ⟨.opSetLoc, 3, 1, 1, .loc⟩,
  ⟨.opGetArg, 3, 0, 1, .arg⟩, ⟨.opPutArg, 3, 1, 0, .arg⟩, ⟨.opSetArg, 3, 1, 1, .arg⟩,
  ⟨.opGetVarRef, 3, 0, 1, .varRef⟩, ⟨.opPutVarRef, 3, 1, 0, .varRef⟩,
  ⟨.opSetVarRef, 3, 1, 1, .varRef⟩, ⟨.opSetLocUninitialized, 3, 0, 0, .loc⟩,
  ⟨.opGetLocCheck, 3, 0, 1, .loc⟩, ⟨.opPutLocCheck, 3, 1, 0, .loc⟩,
  ⟨.opPutLocCheckInit, 3, 1, 0, .loc⟩, ⟨.opGetVarRefCheck, 3, 0, 1, .varRef⟩,
  ⟨.opPutVarRefCheck, 3, 1, 0, .varRef⟩, ⟨.opPutVarRefCheckInit, 3, 1, 0, .varRef⟩,
  ⟨.opCloseLoc, 3, 0, 0, .loc⟩, ⟨.opIfFalse, 5, 1, 0, .label⟩, ⟨.opIfTrue, 5, 1, 0, .label⟩,
  ⟨.opGoto, 5, 0, 0, .label⟩, ⟨.opCatch, 5, 0, 1, .label⟩, ⟨.opGosub, 5, 0, 0, .label⟩,
  ⟨.opRet, 1, 1, 0, .none⟩, ⟨.opToObject, 1, 1, 1, .none⟩, ⟨.opToPropkey, 1, 1, 1, .none⟩,
  ⟨.opToPropkey2, 1, 2, 2, .none⟩, ⟨.opWithGetVar, 10, 1, 0, .atomLabelU8⟩,
  ⟨.opWithPutVar, 10, 2, 1, .atomLabelU8⟩, ⟨.opWithDeleteVar, 10, 1, 0, .atomLabelU8⟩,
  ⟨.opWithMakeRef, 10, 1, 0, .atomLabelU8⟩, ⟨.opWithGetRef, 10, 1, 0, .atomLabelU8⟩,
  ⟨.opWithGetRefUndef, 10, 1, 0, .atomLabelU8⟩, ⟨.opMakeLocRef, 7, 0, 2, .atomU16⟩,
  ⟨.opMakeArgRef, 7, 0, 2, .atomU16⟩, ⟨.opMakeVarRefRef, 7, 0, 2, .atomU16⟩,
  ⟨.opMakeVarRef, 5, 0, 2, .atom⟩, ⟨.opForInStart, 1, 1, 1, .none⟩,
  ⟨.opForOfStart, 1, 1, 3, .none⟩, ⟨.opForAwaitOfStart, 1, 1, 3, .none⟩,
  ⟨.opForInNext, 1, 1, 3, .none⟩, ⟨.opForOfNext, 2, 3, 5, .u8⟩,
  ⟨.opForAwaitOfNext, 1, 3, 4, .none⟩, ⟨.opIteratorGetValueDone, 1, 1, 2, .none⟩,
  ⟨.opIteratorClose, 1, 3, 0, .none⟩, ⟨.opIteratorCloseReturn, 1, 4, 4, .none⟩,
  ⟨.opAsyncIteratorClose, 1, 3, 2, .none⟩, ⟨.opAsyncIteratorNext, 1, 4, 4, .none⟩,
  ⟨.opAsyncIteratorGet, 2, 4, 5, .u8⟩, ⟨.opInitialYield, 1, 0, 0, .none⟩,
  ⟨.opYield, 1, 1, 2, .none⟩, ⟨.opYieldStar, 1, 2, 2, .none⟩,
  ⟨.opAsyncYieldStar, 1, 1, 2, .none⟩, ⟨.opAwait, 1, 1, 1, .none⟩, ⟨.opNeg, 1, 1, 1, .none⟩,
  ⟨.opPlus, 1, 1, 1, .none⟩, ⟨.opDec, 1, 1, 1, .none⟩, ⟨.opInc, 1, 1, 1, .none⟩,
  ⟨.opPostDec, 1, 1, 2, .none⟩, ⟨.opPostInc, 1, 1, 2, .none⟩, ⟨.opDecLoc, 2, 0, 0, .loc8⟩,
  ⟨.opIncLoc, 2, 0, 0, .loc8⟩, ⟨.opAddLoc, 2, 1, 0, .loc8⟩, ⟨.opNot, 1, 1, 1, .none⟩,
  ⟨.opLnot, 1, 1, 1, .none⟩, ⟨.opTypeof, 1, 1, 1, .none⟩, ⟨.opDelete, 1, 2, 1, .none⟩,
  ⟨.opDeleteVar, 5, 0, 1, .atom⟩, ⟨.opMul, 1, 2, 1, .none⟩, ⟨.opDiv, 1, 2, 1, .none⟩,
  ⟨.opMod, 1, 2, 1, .none⟩, ⟨.opAdd, 1, 2, 1, .none⟩, ⟨.opSub, 1, 2, 1, .none⟩,
  ⟨.opPow, 1, 2, 1, .none⟩, ⟨.opShl, 1, 2, 1, .none⟩, ⟨.opSar, 1, 2, 1, .none⟩,
  ⟨.opShr, 1, 2, 1, .none⟩, ⟨.opLt, 1, 2, 1, .none⟩, ⟨.opLte, 1, 2, 1, .none⟩,
  ⟨.opGt, 1, 2, 1, .none⟩, ⟨.opGte, 1, 2, 1, .none⟩, ⟨.opInstanceof, 1, 2, 1, .none⟩,
  ⟨.opIn, 1, 2, 1, .none⟩, ⟨.opEq, 1, 2, 1, .none⟩, ⟨.opNeq, 1, 2, 1, .none⟩,
  ⟨.opStrictEq, 1, 2, 1, .none⟩, ⟨.opStrictNeq, 1, 2, 1, .none⟩, ⟨.opAnd, 1, 2, 1, .none⟩,
  ⟨.opXor, 1, 2, 1, .none⟩, ⟨.opOr, 1, 2, 1, .none⟩, ⟨.opIsUndefinedOrNull, 1, 1, 1, .none⟩,
  ⟨.opMulPow10, 1, 2, 1, .none⟩, ⟨.opMathMod, 1, 2, 1, .none⟩, ⟨.opNop, 1, 0, 0, .none⟩,
  ⟨.opPushMinus1, 1, 0, 1, .noneInt⟩, ⟨.opPush0, 1, 0, 1, .noneInt⟩,
  ⟨.opPush1, 1, 0, 1, .noneInt⟩, ⟨.opPush2, 1, 0, 1, .noneInt⟩, ⟨.opPush3, 1, 0, 1, .noneInt⟩,
  ⟨.opPush4, 1, 0, 1, .noneInt⟩, ⟨.opPush5, 1, 0, 1, .noneInt⟩, ⟨.opPush6, 1, 0, 1, .noneInt⟩,
  ⟨.opPush7, 1, 0, 1, .noneInt⟩, ⟨.opPushI8, 2, 0, 1, .i8⟩, ⟨.opPushI16, 3, 0, 1, .i16⟩,
  ⟨.opPushConst8, 2, 0, 1, .const8⟩, ⟨.opFclosure8, 2, 0, 1, .const8⟩,
  ⟨.opPushEmptyString, 1, 0, 1, .none⟩, ⟨.opGetLoc8, 2, 0, 1, .loc8⟩,
  ⟨.opPutLoc8, 2, 1, 0, .loc8⟩, ⟨.opSetLoc8, 2, 1, 1, .loc8⟩, ⟨.opGetLoc0, 1, 0, 1, .noneLoc⟩,
  ⟨.opGetLoc1, 1, 0, 1, .noneLoc⟩, ⟨.opGetLoc2, 1, 0, 1, .noneLoc⟩,
  ⟨.opGetLoc3, 1, 0, 1, .noneLoc⟩, ⟨.opPutLoc0, 1, 1, 0, .noneLoc⟩,
  ⟨.opPutLoc1, 1, 1, 0, .noneLoc⟩, ⟨.opPutLoc2, 1, 1, 0, .noneLoc⟩,
  ⟨.opPutLoc3, 1, 1, 0, .noneLoc⟩, ⟨.opSetLoc0, 1, 1, 1, .noneLoc⟩,
  ⟨.opSetLoc1, 1, 1, 1, .noneLoc⟩, ⟨.opSetLoc2, 1, 1, 1, .noneLoc⟩,
  ⟨.opSetLoc3, 1, 1, 1, .noneLoc⟩, ⟨.opGetArg0, 1, 0, 1, .noneArg⟩,
  ⟨.opGetArg1, 1, 0, 1, .noneArg⟩, ⟨.opGetArg2, 1, 0, 1, .noneArg⟩,
  ⟨.opGetArg3, 1, 0, 1, .noneArg⟩, ⟨.opPutArg0, 1, 1, 0, .noneArg⟩,
  ⟨.opPutArg1, 1, 1, 0, .noneArg⟩, ⟨.opPutArg2, 1, 1, 0, .noneArg⟩,
  ⟨.opPutArg3, 1, 1, 0, .noneArg⟩, ⟨.opSetArg0, 1, 1, 1, .noneArg⟩,
  ⟨.opSetArg1, 1, 1, 1, .noneArg⟩, ⟨.opSetArg2, 1, 1, 1, .noneArg⟩,
  ⟨.opSetArg3, 1, 1, 1, .noneArg⟩, ⟨.opGetVarRef0, 1, 0, 1, .noneVarRef⟩,
  ⟨.opGetVarRef1, 1, 0, 1, .noneVarRef⟩, ⟨.opGetVarRef2, 1, 0, 1, .noneVarRef⟩,
  ⟨.opGetVarRef3, 1, 0, 1, .noneVarRef⟩, ⟨.opPutVarRef0, 1, 1, 0, .noneVarRef⟩,
  ⟨.opPutVarRef1, 1, 1, 0, .noneVarRef⟩, ⟨.opPutVarRef2, 1, 1, 0, .noneVarRef⟩,
  ⟨.opPutVarRef3, 1, 1, 0, .noneVarRef⟩, ⟨.opSetVarRef0, 1, 1, 1, .noneVarRef⟩,
  ⟨.opSetVarRef1, 1, 1, 1, .noneVarRef⟩, ⟨.opSetVarRef2, 1, 1, 1, .noneVarRef⟩,
  ⟨.opSetVarRef3, 1, 1, 1, .noneVarRef⟩, ⟨.opGetLength, 1, 1, 1, .none⟩,
  ⟨.opIfFalse8, 2, 1, 0, .label8⟩, ⟨.opIfTrue8, 2, 1, 0, .label8⟩, ⟨.opGoto8, 2, 0, 0, .label8⟩,
  ⟨.opGoto16, 3, 0, 0, .label16⟩, ⟨.opCall0, 1, 1, 1, .npopx⟩, ⟨.opCall1, 1, 1, 1, .npopx⟩,
  ⟨.opCall2, 1, 1, 1, .npopx⟩, ⟨.opCall3, 1, 1, 1, .npopx⟩, ⟨.opIsUndefined, 1, 1, 1, .none⟩,
  ⟨.opIsNull, 1, 1, 1, .none⟩, ⟨.opIsFunction, 1, 1, 1, .none⟩]

/-- `short_opcode_info` -/
def shortOpcodeInfo (op : Nat) : Option JSOpCode := opcodeInfo[op]?

end IoQuickJS
