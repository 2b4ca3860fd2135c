/-! A sample schema: the session layer of an exchange, and the flows that answer each request. -/

set_option autoImplicit false
set_option relaxedAutoImplicit false

namespace TradeWire.Schema

def sampleDocument : String := "<?xml version=\"1.0\" encoding=\"UTF-8\"?>
<Model name=\"ETI\" version=\"9.0\" subVersion=\"2\" buildNumber=\"9.0.2.4\">
  <DataTypes>
    <DataType name=\"BodyLen\" type=\"Length\" rootType=\"int\" size=\"4\" minValue=\"0\" maxValue=\"65535\" noValue=\"0xFFFFFFFF\"/>
    <DataType name=\"TemplateID\" type=\"int\" rootType=\"int\" size=\"2\" minValue=\"0\" maxValue=\"65534\" noValue=\"0xFFFF\"/>
    <DataType name=\"NetworkMsgID\" type=\"String\" rootType=\"String\" size=\"8\"/>
    <DataType name=\"Pad1\" type=\"String\" rootType=\"String\" size=\"1\"/>
    <DataType name=\"Pad2\" type=\"String\" rootType=\"String\" size=\"2\"/>
    <DataType name=\"Pad3\" type=\"String\" rootType=\"String\" size=\"3\"/>
    <DataType name=\"Pad4\" type=\"String\" rootType=\"String\" size=\"4\"/>
    <DataType name=\"Pad6\" type=\"String\" rootType=\"String\" size=\"6\"/>
    <DataType name=\"Pad7\" type=\"String\" rootType=\"String\" size=\"7\"/>
    <DataType name=\"MsgSeqNum\" type=\"SeqNum\" rootType=\"int\" size=\"4\" minValue=\"0\" maxValue=\"4294967294\" noValue=\"0xFFFFFFFF\"/>
    <DataType name=\"SenderSubID\" type=\"int\" rootType=\"int\" size=\"4\" minValue=\"0\" maxValue=\"4294967294\" noValue=\"0xFFFFFFFF\"/>
    <DataType name=\"RequestTime\" type=\"UTCTimestamp\" rootType=\"int\" size=\"8\" minValue=\"0\" noValue=\"0xFFFFFFFFFFFFFFFF\"/>
    <DataType name=\"SendingTime\" type=\"UTCTimestamp\" rootType=\"int\" size=\"8\" minValue=\"0\" noValue=\"0xFFFFFFFFFFFFFFFF\"/>
    <DataType name=\"LastFragment\" type=\"int\" rootType=\"int\" size=\"1\" minValue=\"0\" maxValue=\"1\" noValue=\"0xFF\">
      <ValidValue name=\"N\" value=\"0\"/>
      <ValidValue name=\"Y\" value=\"1\"/>
    </DataType>
    <DataType name=\"HeartBtInt\" type=\"int\" rootType=\"int\" size=\"4\" minValue=\"0\" maxValue=\"4294967294\" noValue=\"0xFFFFFFFF\"/>
    <DataType name=\"PartyIDSessionID\" type=\"int\" rootType=\"int\" size=\"4\" minValue=\"0\" maxValue=\"4294967294\" noValue=\"0xFFFFFFFF\"/>
    <DataType name=\"DefaultCstmApplVerID\" type=\"String\" rootType=\"String\" size=\"30\"/>
    <DataType name=\"Password\" type=\"data\" rootType=\"data\" size=\"32\"/>
    <DataType name=\"ApplUsageOrders\" type=\"char\" rootType=\"String\" size=\"1\" noValue=\"0x00\">
      <ValidValue name=\"Automated\" value=\"A\"/>
      <ValidValue name=\"Manual\" value=\"M\"/>
      <ValidValue name=\"AutoAndManual\" value=\"B\"/>
      <ValidValue name=\"None\" value=\"N\"/>
    </DataType>
    <DataType name=\"ApplUsageQuotes\" type=\"char\" rootType=\"String\" size=\"1\" noValue=\"0x00\">
      <ValidValue name=\"Automated\" value=\"A\"/>
      <ValidValue name=\"Manual\" value=\"M\"/>
      <ValidValue name=\"AutoAndManual\" value=\"B\"/>
      <ValidValue name=\"None\" value=\"N\"/>
    </DataType>
    <DataType name=\"OrderRoutingIndicator\" type=\"char\" rootType=\"String\" size=\"1\" noValue=\"0x00\">
      <ValidValue name=\"Yes\" value=\"Y\"/>
      <ValidValue name=\"No\" value=\"N\"/>
    </DataType>
    <DataType name=\"FIXEngineName\" type=\"String\" rootType=\"String\" size=\"30\"/>
    <DataType name=\"FIXEngineVersion\" type=\"String\" rootType=\"String\" size=\"30\"/>
    <DataType name=\"FIXEngineVendor\" type=\"String\" rootType=\"String\" size=\"30\"/>
    <DataType name=\"ApplicationSystemName\" type=\"String\" rootType=\"String\" size=\"30\"/>
    <DataType name=\"ApplicationSystemVersion\" type=\"String\" rootType=\"String\" size=\"30\"/>
    <DataType name=\"ApplicationSystemVendor\" type=\"String\" rootType=\"String\" size=\"30\"/>
    <DataType name=\"ThrottleTimeInterval\" type=\"int\" rootType=\"int\" size=\"8\" minValue=\"-9223372036854775807\" noValue=\"0x8000000000000000\"/>
    <DataType name=\"ThrottleNoMsgs\" type=\"int\" rootType=\"int\" size=\"4\" minValue=\"0\" noValue=\"0xFFFFFFFF\"/>
    <DataType name=\"ThrottleDisconnectLimit\" type=\"int\" rootType=\"int\" size=\"4\" minValue=\"0\" noValue=\"0xFFFFFFFF\"/>
    <DataType name=\"SessionInstanceID\" type=\"int\" rootType=\"int\" size=\"4\" minValue=\"0\" noValue=\"0xFFFFFFFF\"/>
    <DataType name=\"TradSesMode\" type=\"int\" rootType=\"int\" size=\"1\" minValue=\"1\" maxValue=\"4\" noValue=\"0xFF\">
      <ValidValue name=\"Testing\" value=\"1\"/>
      <ValidValue name=\"Simulation\" value=\"2\"/>
      <ValidValue name=\"Production\" value=\"3\"/>
      <ValidValue name=\"Acceptance\" value=\"4\"/>
    </DataType>
    <DataType name=\"NoOfPartition\" type=\"int\" rootType=\"int\" size=\"1\" minValue=\"0\" noValue=\"0xFF\"/>
    <DataType name=\"Username\" type=\"int\" rootType=\"int\" size=\"4\" minValue=\"0\" maxValue=\"4294967294\" noValue=\"0xFFFFFFFF\"/>
    <DataType name=\"SessionRejectReason\" type=\"int\" rootType=\"int\" size=\"4\" minValue=\"0\" noValue=\"0xFFFFFFFF\">
      <ValidValue name=\"RequiredTagMissing\" value=\"1\"/>
      <ValidValue name=\"ValueIsIncorrect\" value=\"5\"/>
      <ValidValue name=\"Other\" value=\"99\"/>
      <ValidValue name=\"ThrottleLimitExceeded\" value=\"100\"/>
      <ValidValue name=\"ExposureLimitExceeded\" value=\"101\"/>
    </DataType>
    <DataType name=\"VarTextLen\" type=\"Counter\" rootType=\"int\" size=\"2\" minValue=\"0\" maxValue=\"2000\" noValue=\"0xFFFF\"/>
    <DataType name=\"SessionStatus\" type=\"int\" rootType=\"int\" size=\"1\" minValue=\"0\" noValue=\"0xFF\">
      <ValidValue name=\"Active\" value=\"0\"/>
      <ValidValue name=\"Logout\" value=\"4\"/>
    </DataType>
    <DataType name=\"VarText\" type=\"data\" rootType=\"String\" size=\"2000\" variableSize=\"true\"/>
    <DataType name=\"Price\" type=\"PriceType\" rootType=\"floatDecimal\" size=\"8\" precision=\"8\" minValue=\"-92233720368.54775807\" maxValue=\"92233720368.54775807\" noValue=\"0x8000000000000000\"/>
    <DataType name=\"LastPx\" type=\"PriceType\" rootType=\"floatDecimal\" size=\"8\" precision=\"8\" minValue=\"-92233720368.54775807\" maxValue=\"92233720368.54775807\" noValue=\"0x8000000000000000\"/>
    <DataType name=\"OrderQty\" type=\"Qty\" rootType=\"floatDecimal\" size=\"8\" precision=\"4\" minValue=\"-922337203685477.5807\" maxValue=\"922337203685477.5807\" noValue=\"0x8000000000000000\"/>
    <DataType name=\"LastQty\" type=\"Qty\" rootType=\"floatDecimal\" size=\"8\" precision=\"4\" minValue=\"-922337203685477.5807\" maxValue=\"922337203685477.5807\" noValue=\"0x8000000000000000\"/>
    <DataType name=\"SenderLocationID\" type=\"int\" rootType=\"int\" size=\"8\" minValue=\"0\" noValue=\"0xFFFFFFFFFFFFFFFF\"/>
    <DataType name=\"ClOrdID\" type=\"int\" rootType=\"int\" size=\"8\" minValue=\"0\" noValue=\"0xFFFFFFFFFFFFFFFF\"/>
    <DataType name=\"OrderID\" type=\"int\" rootType=\"int\" size=\"8\" minValue=\"0\" noValue=\"0xFFFFFFFFFFFFFFFF\"/>
    <DataType name=\"SimpleSecurityID\" type=\"int\" rootType=\"int\" size=\"4\" minValue=\"0\" noValue=\"0xFFFFFFFF\"/>
    <DataType name=\"SecurityID\" type=\"int\" rootType=\"int\" size=\"8\" minValue=\"-9223372036854775807\" noValue=\"0x8000000000000000\"/>
    <DataType name=\"Side\" type=\"int\" rootType=\"int\" size=\"1\" minValue=\"1\" maxValue=\"2\" noValue=\"0xFF\">
      <ValidValue name=\"Buy\" value=\"1\"/>
      <ValidValue name=\"Sell\" value=\"2\"/>
    </DataType>
    <DataType name=\"TimeInForce\" type=\"int\" rootType=\"int\" size=\"1\" minValue=\"0\" maxValue=\"7\" noValue=\"0xFF\">
      <ValidValue name=\"Day\" value=\"0\"/>
      <ValidValue name=\"GTC\" value=\"1\"/>
      <ValidValue name=\"IOC\" value=\"3\"/>
      <ValidValue name=\"FOK\" value=\"4\"/>
      <ValidValue name=\"GTD\" value=\"6\"/>
    </DataType>
    <DataType name=\"MassActionReportID\" type=\"int\" rootType=\"int\" size=\"8\" minValue=\"0\" noValue=\"0xFFFFFFFFFFFFFFFF\"/>
    <DataType name=\"NoNotAffectedOrders\" type=\"Counter\" rootType=\"int\" size=\"2\" minValue=\"0\" maxValue=\"500\" noValue=\"0xFFFF\"/>
    <DataType name=\"NotAffectedOrderID\" type=\"int\" rootType=\"int\" size=\"8\" minValue=\"0\" noValue=\"0xFFFFFFFFFFFFFFFF\"/>
    <DataType name=\"NotAffOrigClOrdID\" type=\"int\" rootType=\"int\" size=\"8\" minValue=\"0\" noValue=\"0xFFFFFFFFFFFFFFFF\"/>
  </DataTypes>
  <Structures>
    <Structure name=\"MessageHeaderInComp\" type=\"Component\">
      <Member name=\"BodyLen\" type=\"BodyLen\" cardinality=\"1\"/>
      <Member name=\"TemplateID\" type=\"TemplateID\" cardinality=\"1\"/>
      <Member name=\"NetworkMsgID\" type=\"NetworkMsgID\" cardinality=\"1\"/>
      <Member name=\"Pad2\" type=\"Pad2\" cardinality=\"1\"/>
    </Structure>
    <Structure name=\"MessageHeaderOutComp\" type=\"Component\">
      <Member name=\"BodyLen\" type=\"BodyLen\" cardinality=\"1\"/>
      <Member name=\"TemplateID\" type=\"TemplateID\" cardinality=\"1\"/>
      <Member name=\"Pad2\" type=\"Pad2\" cardinality=\"1\"/>
    </Structure>
    <Structure name=\"RequestHeaderComp\" type=\"Component\">
      <Member name=\"MsgSeqNum\" type=\"MsgSeqNum\" cardinality=\"1\"/>
      <Member name=\"SenderSubID\" type=\"SenderSubID\" cardinality=\"1\"/>
    </Structure>
    <Structure name=\"ResponseHeaderComp\" type=\"Component\">
      <Member name=\"RequestTime\" type=\"RequestTime\" cardinality=\"1\"/>
      <Member name=\"SendingTime\" type=\"SendingTime\" cardinality=\"1\"/>
      <Member name=\"MsgSeqNum\" type=\"MsgSeqNum\" cardinality=\"1\"/>
      <Member name=\"LastFragment\" type=\"LastFragment\" cardinality=\"1\"/>
      <Member name=\"Pad3\" type=\"Pad3\" cardinality=\"1\"/>
    </Structure>
    <Structure name=\"NRResponseHeaderMEComp\" type=\"Component\">
      <Member name=\"RequestTime\" type=\"RequestTime\" cardinality=\"1\"/>
      <Member name=\"SendingTime\" type=\"SendingTime\" cardinality=\"1\"/>
      <Member name=\"MsgSeqNum\" type=\"MsgSeqNum\" cardinality=\"1\"/>
      <Member name=\"Pad4\" type=\"Pad4\" cardinality=\"1\"/>
    </Structure>
    <Structure name=\"NotifHeaderComp\" type=\"Component\">
      <Member name=\"SendingTime\" type=\"SendingTime\" cardinality=\"1\"/>
    </Structure>
    <Structure name=\"NotAffectedOrdersGrpComp\" type=\"Component\">
      <Member name=\"NotAffectedOrderID\" type=\"NotAffectedOrderID\" cardinality=\"1\"/>
      <Member name=\"NotAffOrigClOrdID\" type=\"NotAffOrigClOrdID\" cardinality=\"1\"/>
    </Structure>
    <Structure name=\"LogonRequest\" type=\"Message\" numericID=\"10000\">
      <Member name=\"MessageHeaderIn\" type=\"MessageHeaderInComp\" cardinality=\"1\"/>
      <Member name=\"RequestHeader\" type=\"RequestHeaderComp\" cardinality=\"1\"/>
      <Member name=\"HeartBtInt\" type=\"HeartBtInt\" cardinality=\"1\"/>
      <Member name=\"PartyIDSessionID\" type=\"PartyIDSessionID\" cardinality=\"1\"/>
      <Member name=\"DefaultCstmApplVerID\" type=\"DefaultCstmApplVerID\" cardinality=\"1\"/>
      <Member name=\"Password\" type=\"Password\" cardinality=\"1\"/>
      <Member name=\"ApplUsageOrders\" type=\"ApplUsageOrders\" cardinality=\"1\"/>
      <Member name=\"ApplUsageQuotes\" type=\"ApplUsageQuotes\" cardinality=\"1\"/>
      <Member name=\"OrderRoutingIndicator\" type=\"OrderRoutingIndicator\" cardinality=\"1\"/>
      <Member name=\"FIXEngineName\" type=\"FIXEngineName\" cardinality=\"1\"/>
      <Member name=\"FIXEngineVersion\" type=\"FIXEngineVersion\" cardinality=\"1\"/>
      <Member name=\"FIXEngineVendor\" type=\"FIXEngineVendor\" cardinality=\"1\"/>
      <Member name=\"ApplicationSystemName\" type=\"ApplicationSystemName\" cardinality=\"1\"/>
      <Member name=\"ApplicationSystemVersion\" type=\"ApplicationSystemVersion\" cardinality=\"1\"/>
      <Member name=\"ApplicationSystemVendor\" type=\"ApplicationSystemVendor\" cardinality=\"1\"/>
      <Member name=\"Pad3\" type=\"Pad3\" cardinality=\"1\"/>
    </Structure>
    <Structure name=\"LogonResponse\" type=\"Message\" numericID=\"10001\">
      <Member name=\"MessageHeaderOut\" type=\"MessageHeaderOutComp\" cardinality=\"1\"/>
      <Member name=\"ResponseHeader\" type=\"ResponseHeaderComp\" cardinality=\"1\"/>
      <Member name=\"ThrottleTimeInterval\" type=\"ThrottleTimeInterval\" cardinality=\"1\"/>
      <Member name=\"ThrottleNoMsgs\" type=\"ThrottleNoMsgs\" cardinality=\"1\"/>
      <Member name=\"ThrottleDisconnectLimit\" type=\"ThrottleDisconnectLimit\" cardinality=\"1\"/>
      <Member name=\"HeartBtInt\" type=\"HeartBtInt\" cardinality=\"1\"/>
      <Member name=\"SessionInstanceID\" type=\"SessionInstanceID\" cardinality=\"1\"/>
      <Member name=\"TradSesMode\" type=\"TradSesMode\" cardinality=\"1\"/>
      <Member name=\"NoOfPartition\" type=\"NoOfPartition\" cardinality=\"1\"/>
      <Member name=\"DefaultCstmApplVerID\" type=\"DefaultCstmApplVerID\" cardinality=\"1\"/>
    </Structure>
    <Structure name=\"LogoutRequest\" type=\"Message\" numericID=\"10002\">
      <Member name=\"MessageHeaderIn\" type=\"MessageHeaderInComp\" cardinality=\"1\"/>
      <Member name=\"RequestHeader\" type=\"RequestHeaderComp\" cardinality=\"1\"/>
    </Structure>
    <Structure name=\"LogoutResponse\" type=\"Message\" numericID=\"10003\">
      <Member name=\"MessageHeaderOut\" type=\"MessageHeaderOutComp\" cardinality=\"1\"/>
      <Member name=\"ResponseHeader\" type=\"ResponseHeaderComp\" cardinality=\"1\"/>
    </Structure>
    <Structure name=\"Reject\" type=\"Message\" numericID=\"10010\">
      <Member name=\"MessageHeaderOut\" type=\"MessageHeaderOutComp\" cardinality=\"1\"/>
      <Member name=\"NRResponseHeaderME\" type=\"NRResponseHeaderMEComp\" cardinality=\"1\"/>
      <Member name=\"SessionRejectReason\" type=\"SessionRejectReason\" cardinality=\"1\"/>
      <Member name=\"VarTextLen\" type=\"VarTextLen\" cardinality=\"1\"/>
      <Member name=\"SessionStatus\" type=\"SessionStatus\" cardinality=\"1\"/>
      <Member name=\"Pad1\" type=\"Pad1\" cardinality=\"1\"/>
      <Member name=\"VarText\" type=\"VarText\" cardinality=\"1\" counter=\"VarTextLen\"/>
    </Structure>
    <Structure name=\"Heartbeat\" type=\"Message\" numericID=\"10011\">
      <Member name=\"MessageHeaderIn\" type=\"MessageHeaderInComp\" cardinality=\"1\"/>
    </Structure>
    <Structure name=\"UserLoginRequest\" type=\"Message\" numericID=\"10018\">
      <Member name=\"MessageHeaderIn\" type=\"MessageHeaderInComp\" cardinality=\"1\"/>
      <Member name=\"RequestHeader\" type=\"RequestHeaderComp\" cardinality=\"1\"/>
      <Member name=\"Username\" type=\"Username\" cardinality=\"1\"/>
      <Member name=\"Password\" type=\"Password\" cardinality=\"1\"/>
      <Member name=\"Pad4\" type=\"Pad4\" cardinality=\"1\"/>
    </Structure>
    <Structure name=\"UserLoginResponse\" type=\"Message\" numericID=\"10019\">
      <Member name=\"MessageHeaderOut\" type=\"MessageHeaderOutComp\" cardinality=\"1\"/>
      <Member name=\"ResponseHeader\" type=\"ResponseHeaderComp\" cardinality=\"1\"/>
    </Structure>
    <Structure name=\"NewOrderResponse\" type=\"Message\" numericID=\"10101\">
      <Member name=\"MessageHeaderOut\" type=\"MessageHeaderOutComp\" cardinality=\"1\"/>
      <Member name=\"ResponseHeader\" type=\"ResponseHeaderComp\" cardinality=\"1\"/>
      <Member name=\"OrderID\" type=\"OrderID\" cardinality=\"1\"/>
      <Member name=\"ClOrdID\" type=\"ClOrdID\" cardinality=\"1\"/>
      <Member name=\"Side\" type=\"Side\" cardinality=\"1\"/>
      <Member name=\"Pad7\" type=\"Pad7\" cardinality=\"1\"/>
    </Structure>
    <Structure name=\"ImmediateExecutionResponse\" type=\"Message\" numericID=\"10103\">
      <Member name=\"MessageHeaderOut\" type=\"MessageHeaderOutComp\" cardinality=\"1\"/>
      <Member name=\"ResponseHeader\" type=\"ResponseHeaderComp\" cardinality=\"1\"/>
      <Member name=\"OrderID\" type=\"OrderID\" cardinality=\"1\"/>
      <Member name=\"ClOrdID\" type=\"ClOrdID\" cardinality=\"1\"/>
      <Member name=\"LastPx\" type=\"LastPx\" cardinality=\"1\"/>
      <Member name=\"LastQty\" type=\"LastQty\" cardinality=\"1\"/>
    </Structure>
    <Structure name=\"DeleteAllOrderBroadcast\" type=\"Message\" numericID=\"10122\">
      <Member name=\"MessageHeaderOut\" type=\"MessageHeaderOutComp\" cardinality=\"1\"/>
      <Member name=\"NotifHeader\" type=\"NotifHeaderComp\" cardinality=\"1\"/>
      <Member name=\"MassActionReportID\" type=\"MassActionReportID\" cardinality=\"1\"/>
      <Member name=\"SecurityID\" type=\"SecurityID\" cardinality=\"1\"/>
      <Member name=\"NoNotAffectedOrders\" type=\"NoNotAffectedOrders\" cardinality=\"1\"/>
      <Member name=\"Pad6\" type=\"Pad6\" cardinality=\"1\"/>
      <Member name=\"NotAffectedOrdersGrp\" type=\"NotAffectedOrdersGrpComp\" cardinality=\"500\" minCardinality=\"0\" counter=\"NoNotAffectedOrders\"/>
    </Structure>
    <Structure name=\"NewOrderSingleShortRequest\" type=\"Message\" numericID=\"10125\">
      <Member name=\"MessageHeaderIn\" type=\"MessageHeaderInComp\" cardinality=\"1\"/>
      <Member name=\"RequestHeader\" type=\"RequestHeaderComp\" cardinality=\"1\"/>
      <Member name=\"Price\" type=\"Price\" cardinality=\"1\"/>
      <Member name=\"SenderLocationID\" type=\"SenderLocationID\" cardinality=\"1\"/>
      <Member name=\"ClOrdID\" type=\"ClOrdID\" cardinality=\"1\"/>
      <Member name=\"OrderQty\" type=\"OrderQty\" cardinality=\"1\"/>
      <Member name=\"SimpleSecurityID\" type=\"SimpleSecurityID\" cardinality=\"1\"/>
      <Member name=\"Side\" type=\"Side\" cardinality=\"1\"/>
      <Member name=\"TimeInForce\" type=\"TimeInForce\" cardinality=\"1\"/>
      <Member name=\"Pad2\" type=\"Pad2\" cardinality=\"1\"/>
    </Structure>
  </Structures>
  <ApplicationMessages>
    <ApplicationMessage name=\"LogonRequest\" package=\"eti_Derivatives\">
      <Member name=\"HeartBtInt\" usage=\"mandatory\"/>
      <Member name=\"PartyIDSessionID\" usage=\"mandatory\"/>
      <Member name=\"DefaultCstmApplVerID\" usage=\"mandatory\"/>
      <Member name=\"Password\" usage=\"conditional\"/>
      <Member name=\"ApplUsageOrders\" usage=\"mandatory\"/>
      <Member name=\"FIXEngineName\" usage=\"optional\"/>
    </ApplicationMessage>
    <ApplicationMessage name=\"UserLoginRequest\" package=\"eti_Derivatives\">
      <Member name=\"Username\" usage=\"mandatory\"/>
      <Member name=\"Password\" usage=\"mandatory\"/>
    </ApplicationMessage>
    <ApplicationMessage name=\"Reject\" package=\"eti_Derivatives\">
      <Member name=\"SessionRejectReason\" usage=\"mandatory\"/>
      <Member name=\"VarText\" usage=\"optional\"/>
    </ApplicationMessage>
    <ApplicationMessage name=\"NewOrderSingleShortRequest\" package=\"eti_Derivatives\">
      <Member name=\"Price\" usage=\"conditional\"/>
      <Member name=\"OrderQty\" usage=\"mandatory\"/>
      <Member name=\"Side\" usage=\"mandatory\"/>
      <Member name=\"TimeInForce\" usage=\"optional\"/>
    </ApplicationMessage>
    <ApplicationMessage name=\"DeleteAllOrderBroadcast\" package=\"eti_Derivatives\">
      <Member name=\"MassActionReportID\" usage=\"mandatory\"/>
      <Member name=\"NoNotAffectedOrders\" usage=\"mandatory\"/>
      <Group name=\"NotAffectedOrdersGrp\">
        <Member name=\"NotAffectedOrderID\" usage=\"mandatory\"/>
        <Member name=\"NotAffOrigClOrdID\" usage=\"conditional\"/>
      </Group>
    </ApplicationMessage>
  </ApplicationMessages>
  <MessageFlows>
    <MessageFlow name=\"Logon\">
      <Message name=\"LogonRequest\">
        <Message name=\"LogonResponse\"/>
      </Message>
    </MessageFlow>
    <MessageFlow name=\"Logout\">
      <Message name=\"LogoutRequest\">
        <Message name=\"LogoutResponse\"/>
      </Message>
    </MessageFlow>
    <MessageFlow name=\"UserLogin\">
      <Message name=\"UserLoginRequest\">
        <Message name=\"UserLoginResponse\"/>
      </Message>
    </MessageFlow>
    <MessageFlow name=\"NewOrderSingleShort\">
      <Message name=\"NewOrderSingleShortRequest\">
        <Node name=\"TimeInForce\">
          <Message name=\"NewOrderResponse\" condition=\"Day or GTC\">
            <Node name=\"Side\">
              <Message name=\"ImmediateExecutionResponse\" condition=\"Buy\"/>
            </Node>
          </Message>
          <Message name=\"ImmediateExecutionResponse\" condition=\"IOC\"/>
        </Node>
      </Message>
    </MessageFlow>
  </MessageFlows>
</Model>
"

end TradeWire.Schema
