namespace Zngtcp2

/-- The negative return codes of the library. -/
inductive Err
  | invalidArgument
  | nobuf
  | proto
  | invalidState
  | ackFrame
  | streamIdBlocked
  | streamInUse
  | streamDataBlocked
  | flowControl
  | connectionIdLimit
  | streamLimit
  | finalSize
  | crypto
  | pktNumExhausted
  | requiredTransportParam
  | malformedTransportParam
  | frameEncoding
  | decrypt
  | streamShutWr
  | streamNotFound
  | streamState
  | recvVersionNegotiation
  | closing
  | draining
  | transportParam
  | discardPkt
  | connIdBlocked
  | internal
  | cryptoBufferExceeded
  | writeMore
  | retry
  | dropConn
  | aeadLimitReached
  | noViablePath
  | versionNegotiation
  | handshakeTimeout
  | versionNegotiationFailure
  | idleClose
  | nomem
  | callbackFailure
  | bufContract
  deriving DecidableEq, Repr

/-- `ngtcp2_err_is_fatal`: the codes below `NGTCP2_ERR_FATAL`. -/
def Err.isFatal : Err → Bool
  | .nomem | .callbackFailure | .bufContract => true
  | _ => false

def Err.isUnrecoverable : Err → Bool
  | .crypto | .requiredTransportParam | .malformedTransportParam | .transportParam
  | .versionNegotiationFailure | .internal => true
  | _ => false

end Zngtcp2
